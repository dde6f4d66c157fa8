import Patchbay.Proofs.Attribute.Setting
import Patchbay.Proofs.Number.Fraction

/-!
# Values within limits

Whatever an attribute is set to, what it holds is within its limits: its value, its default and its
snapshot. For doubles this is so whenever the limits are in order, and no NaN gets past them. Of a color
each component is between zero and one unless a NaN was given for it; a NaN is kept.

An integer is compared with the limits as a double, and so is rounded. One that is beyond a limit is kept
if it is rounded to the limit itself, which takes an integer beyond 2^53. All other integers are within the
limits exactly, as long as there is an integer within them at all.
-/

namespace Patchbay

namespace Attribute

variable {attr : Attribute} {held : List Atom} {lo hi x : Float}

/-! ### Doubles -/

/-- A number that is brought up to a limit is not below it. -/
theorem le_raise (h : lo.isNaN = false) (x : Float) : lo ≤ raise lo x := by
  unfold raise
  split
  · next habove =>
    rw [h, Bool.false_or, decide_eq_true_eq] at habove
    exact Double.le_of_lt habove
  · exact Double.le_self h

/-- A number that is brought down to a limit is not above it. -/
theorem lower_le (h : hi.isNaN = false) (x : Float) : lower hi x ≤ hi := by
  unfold lower
  split
  · next hbelow =>
    rw [h, Bool.false_or, decide_eq_true_eq] at hbelow
    exact Double.le_of_lt hbelow
  · exact Double.le_self h

/-- It does not get below what neither it nor the limit is below. -/
theorem le_lower (hx : lo ≤ x) (hlimits : lo ≤ hi) : lo ≤ lower hi x := by
  unfold lower
  split <;> assumption

/-- Limits in order leave no number beyond them, and no NaN. -/
theorem clamp_within (hlo : attr.least? = some lo) (hhi : attr.greatest? = some hi) (hlimits : lo ≤ hi)
    (x : Float) : lo ≤ attr.clamp x ∧ attr.clamp x ≤ hi := by
  obtain ⟨hlow, hhigh⟩ := Double.isNaN_of_le hlimits
  have hclamp : attr.clamp x = lower hi (raise lo x) := by simp only [clamp, hlo, hhi]
  rw [hclamp]
  exact ⟨le_lower (le_raise hlow x) hlimits, lower_le hhigh _⟩

/-- A component of a color that is a number is between zero and one. -/
theorem clampUnit_within (h : x.isNaN = false) : 0.0 ≤ clampUnit x ∧ clampUnit x ≤ 1.0 := by
  have hzero : (0.0 : Float).isNaN = false := by decide
  have hone : (1.0 : Float).isNaN = false := by decide
  unfold clampUnit
  dsimp only
  split
  · decide
  next hlow =>
  split
  · decide
  next hhigh =>
  exact ⟨Double.le_of_not_lt h hzero hlow, Double.le_of_not_lt hone h hhigh⟩

/-- One that is a NaN is kept. -/
theorem clampUnit_of_isNaN (h : x.isNaN = true) : clampUnit x = x := by
  have hlow : ¬ x < 0.0 := by
    intro hlt
    rw [Double.isNaN_of_lt hlt] at h
    cases h
  have hhigh : ¬ x > 1.0 := by
    intro hgt
    rw [Double.isNaN_of_gt hgt] at h
    cases h
  simp only [clampUnit, if_neg hlow, if_neg hhigh]

/-- So a component is a NaN if it was given as one. -/
theorem isNaN_clampUnit_eq (x : Float) : (clampUnit x).isNaN = x.isNaN := by
  cases hx : x.isNaN with
  | false => exact isNaN_clampUnit hx
  | true => rw [clampUnit_of_isNaN hx, hx]

/-- All that is made of doubles has been brought within the limits, also a side that is tied. -/
theorem exists_clamp_of_mem_fit (hcolor : attr.kind ≠ .color) {xs : List Float} (hx : x ∈ attr.fit xs) :
    ∃ y, x = attr.clamp y := by
  have hside : ∀ x ∈ xs.map attr.bound, ∃ y, x = attr.clamp y := by
    rw [bound_of_ne_color hcolor]
    intro x hx
    obtain ⟨y, -, rfl⟩ := List.mem_map.mp hx
    exact ⟨y, rfl⟩
  unfold fit tie at hx
  split at hx
  · next ratio width height hkind hratio hsides =>
    rcases List.mem_cons.mp hx with rfl | hx
    · exact hside x (hsides ▸ List.mem_cons_self)
    · exact ⟨width * ratio, List.mem_singleton.mp hx⟩
  · exact hside x hx

/-- The components of a color have been brought between zero and one. -/
theorem fit_of_color (hcolor : attr.kind = .color) (xs : List Float) : attr.fit xs = xs.map clampUnit := by
  rw [fit, tie_of_ne_size (by simp [hcolor]), bound_of_color hcolor]

/-- There is a NaN among the components that are stored if there is one among those that are given. -/
theorem exists_isNaN_map_clampUnit (xs : List Float) :
    (∃ x, Atom.double x ∈ xs.map (fun x => .double (clampUnit x)) ∧ x.isNaN = true) ↔
      ∃ x ∈ xs, x.isNaN = true := by
  constructor
  · rintro ⟨x, hx, hnan⟩
    obtain ⟨y, hy, heq⟩ := List.mem_map.mp hx
    exact ⟨y, hy, by rw [← isNaN_clampUnit_eq, (Atom.double.inj heq).1, hnan]⟩
  · rintro ⟨x, hx, hnan⟩
    exact ⟨clampUnit x, List.mem_map.mpr ⟨x, hx, rfl⟩, (isNaN_clampUnit_eq x).trans hnan⟩

/-- A color takes in a NaN just if one is among the numbers that it is given. -/
theorem exists_isNaN_of_conform {atoms : List Atom} (hcolor : attr.kind = .color)
    (h : attr.conform atoms = some held) :
    (∃ x, .double x ∈ held ∧ x.isNaN = true) ↔ ∃ x ∈ leadingNumbers 4 atoms, x.isNaN = true := by
  have hone : (1.0 : Float).isNaN = false := by decide
  have hlength : (leadingNumbers 4 atoms).length ≤ 4 := by
    rw [leadingNumbers, List.length_map]
    exact List.length_take_le _ _
  simp only [conform, hcolor] at h
  split at h
  swap
  · cases h
  next red green blue rest hleading =>
  obtain rfl := Option.some.inj h
  rw [exists_isNaN_map_clampUnit]
  rw [hleading] at hlength ⊢
  cases rest with
  | nil =>
    -- three numbers are given, and the fourth component is a one
    simp only [List.head?_nil, Option.getD_none, List.mem_cons, List.not_mem_nil, or_false, or_and_right,
      exists_or, exists_eq_left, hone, Bool.false_eq_true]
  | cons alpha rest =>
    have hrest : rest.length = 0 := by
      simp only [List.length_cons] at hlength
      omega
    obtain rfl := List.eq_nil_of_length_eq_zero hrest
    rfl

/-! ### Integers -/

/-- What becomes of an integer is not beyond the limits as a double, if there is an integer within them. -/
theorem clampLong_within (hlo : attr.least? = some lo) (hhi : attr.greatest? = some hi) {least greatest : ℚ}
    (hleast : Double.fraction? lo = some least) (hgreatest : Double.fraction? hi = some greatest) {m : Int64}
    (hlow : least ≤ m.toInt) (hhigh : m.toInt ≤ greatest) (n : Int64) :
    ¬ Long.toDouble (attr.clampLong n) < lo ∧ ¬ hi < Long.toDouble (attr.clampLong n) := by
  obtain ⟨hceil, hceilMost⟩ := Long.toInt_ceil hleast hlow
  obtain ⟨hfloor, hfloorLeast⟩ := Long.toInt_floor hgreatest hhigh
  have hclamp : attr.clampLong n = lowerLong hi (raiseLong lo n) := by
    simp only [clampLong, hlo, hhi]
    rfl
  have hbelow : ∀ n, Long.toDouble n < lo → (n.toInt : ℚ) < least := fun n h =>
    ((Long.toDouble_lt_iff hleast).mp h).1
  have habove : ∀ n, hi < Long.toDouble n → greatest < n.toInt := fun n h =>
    ((Long.lt_toDouble_iff hgreatest).mp h).1
  rw [hclamp]
  by_cases hraised : Long.toDouble n < lo
  · have hraise : raiseLong lo n = Long.ofDouble Binary.ceil lo := if_pos hraised
    have hstays : ¬ hi < Long.toDouble (Long.ofDouble Binary.ceil lo) := fun h =>
      (habove _ h).not_ge (le_trans (Int.cast_le.mpr hceilMost) hhigh)
    have hlower : lowerLong hi (Long.ofDouble Binary.ceil lo) = Long.ofDouble Binary.ceil lo := if_neg hstays
    rw [hraise, hlower]
    exact ⟨fun h => (hbelow _ h).not_ge hceil, hstays⟩
  have hraise : raiseLong lo n = n := if_neg hraised
  rw [hraise]
  by_cases hlowered : hi < Long.toDouble n
  · have hlower : lowerLong hi n = Long.ofDouble Binary.floor hi := if_pos hlowered
    rw [hlower]
    exact ⟨fun h => (hbelow _ h).not_ge (hlow.trans (Int.cast_le.mpr hfloorLeast)),
      fun h => (habove _ h).not_ge hfloor⟩
  · have hlower : lowerLong hi n = n := if_neg hlowered
    rw [hlower]
    exact ⟨hraised, hlowered⟩

/-- An integer stays if it is within the limits. So does one that is beyond a limit and is rounded to it. -/
theorem stays_long_iff (hkind : attr.kind = .long) (hlo : attr.least? = some lo)
    (hhi : attr.greatest? = some hi) {least greatest : ℚ} (hleast : Double.fraction? lo = some least)
    (hgreatest : Double.fraction? hi = some greatest) {m : Int64} (hlow : least ≤ m.toInt)
    (hhigh : m.toInt ≤ greatest) (n : Int64) :
    attr.Stays [.long n] ↔
      (least ≤ n.toInt ∨ (Long.toDouble n == lo) = true ∧ 2 ^ 53 < n.toInt.natAbs) ∧
        (n.toInt ≤ greatest ∨ (Long.toDouble n == hi) = true ∧ 2 ^ 53 < n.toInt.natAbs) := by
  have hconform : attr.conform [.long n] = some [.long (attr.clampLong n)] := by
    simp only [conform, hkind]
    rfl
  rw [← Long.not_toDouble_lt_iff hleast, ← Long.not_lt_toDouble_iff hgreatest]
  constructor
  · intro hstays
    have hsame : attr.clampLong n = n := by
      have hboth := hconform.symm.trans hstays.conform
      simpa using hboth
    rw [← hsame]
    exact clampLong_within hlo hhi hleast hgreatest hlow hhigh n
  · rintro ⟨hbelow, habove⟩
    have hsame : attr.clampLong n = n := by
      simp only [clampLong, hlo, hhi, if_neg hbelow]
      exact if_neg habove
    rw [hsame] at hconform
    exact ⟨hkind ▸ .whole n, hconform⟩

end Attribute

namespace Watch

variable {L : Type} [DecidableEq L] {watch : Watch L} {name : String} {attr : Attribute}

/-- What an attribute of a sheet holds stays, whatever was asked of the sheet. -/
theorem stays_of_runAll {react : Reactions L} {steps : List (Step L)}
    (hrun : runAll react steps {} = some watch) (hattr : watch.sheet.get? name = some attr)
    (hitems : attr.kind ≠ .enum []) {held : List Atom} (hheld : held ∈ attr.holdings) : attr.Stays held :=
  (orderly_of_runAll hrun _ (Keyed.mem_of_get? hattr)).stays hitems hheld

/-- Whatever is asked of a sheet, every integer that is held under finite limits with an integer within them
is within them as well, unless it is rounded to the limit that it is beyond. That takes an integer beyond
2^53. -/
theorem longs_within_limits (react : Reactions L) (steps : List (Step L)) {watch : Watch L}
    (hrun : runAll react steps {} = some watch) {name : String} {attr : Attribute}
    (hattr : watch.sheet.get? name = some attr) (hkind : attr.kind = .long) {lo hi : Float}
    (hlo : attr.least? = some lo) (hhi : attr.greatest? = some hi) {least greatest : ℚ}
    (hleast : Double.fraction? lo = some least) (hgreatest : Double.fraction? hi = some greatest)
    (hinside : ∃ m : Int64, least ≤ m.toInt ∧ m.toInt ≤ greatest) :
    ∀ held ∈ attr.holdings, ∃ n : Int64, held = [.long n] ∧
      (least ≤ n.toInt ∨ (Long.toDouble n == lo) = true ∧ 2 ^ 53 < n.toInt.natAbs) ∧
      (n.toInt ≤ greatest ∨ (Long.toDouble n == hi) = true ∧ 2 ^ 53 < n.toInt.natAbs) := by
  intro held hheld
  obtain ⟨m, hlow, hhigh⟩ := hinside
  have hstays := stays_of_runAll hrun hattr (by simp [hkind]) hheld
  obtain ⟨n, rfl⟩ : ∃ n, held = [.long n] := by
    have hshape := hstays.shape
    rw [hkind] at hshape
    cases hshape with
    | whole n => exact ⟨n, rfl⟩
    | numbers hnumeric => cases hnumeric
  exact ⟨n, rfl, (Attribute.stays_long_iff hkind hlo hhi hleast hgreatest hlow hhigh n).mp hstays⟩

/-- An attribute is found with its limits and with what it holds. -/
theorem exists_attribute {sheet : Sheet} {name : String} {holdings : List (List Atom)}
    {scope : Kind × Option Float × Option Float × Option Float}
    (hscope : (Keyed.get? sheet name).map Attribute.scope = some scope)
    (hheld : (Keyed.get? sheet name).map Attribute.holdings = some holdings) :
    ∃ attr, Keyed.get? sheet name = some attr ∧ attr.scope = scope ∧ attr.holdings = holdings := by
  obtain ⟨attr, hattr, hsame⟩ := Option.map_eq_some_iff.mp hscope
  rw [hattr, Option.map_some, Option.some.injEq] at hheld
  exact ⟨attr, hattr, hsame, hheld⟩

/-- A number of frames, of which there is half a one at least and 2^53 at most. -/
def frames : Declaration := ⟨"frames", .long, trivial, [], [.range 0.5 9007199254740992.0]⟩

/-- There is the least of them first, and then the most is passed by one. -/
def counted : List (Step Unit) := [.add frames, .set "frames" [.long 9007199254740993]]

/-- What is counted is held. -/
theorem exists_counted : ∃ sheet, runAll unmoved counted {} = some { sheet } ∧
    ∃ attr, Keyed.get? sheet "frames" = some attr ∧
      attr.scope = (.long, some 0.5, some 9007199254740992.0, none) ∧
      attr.holdings = [[.long 9007199254740993], [.long 1]] :=
  ⟨counted.foldl Step.alone [], runAll_alone (by decide) [],
    exists_attribute (by decide) rfl⟩

/-- The limits are the fractions that they are written as. -/
theorem fraction_frames : Double.fraction? 0.5 = some (1 / 2) ∧
    Double.fraction? 9007199254740992.0 = some (2 ^ 53) := by
  have hlow : Binary.ofDouble? 0.5 = some ⟨false, 2 ^ 52, -53⟩ := by decide
  have hhigh : Binary.ofDouble? 9007199254740992.0 = some ⟨false, 2 ^ 52, 1⟩ := by decide
  rw [Double.fraction?, Double.fraction?, hlow, hhigh, Option.map_some, Option.map_some, Binary.toRat,
    Binary.toRat]
  norm_num

/-- There are integers between them. -/
theorem one_within_frames : (1 / 2 : ℚ) ≤ (1 : Int64).toInt ∧ ((1 : Int64).toInt : ℚ) ≤ 2 ^ 53 := by
  rw [show (1 : Int64).toInt = 1 from rfl]
  norm_num

/-- All that is held is within the limits, or is rounded to one. -/
theorem longs_within_limits_frames :
    ∃ sheet, runAll unmoved counted {} = some { sheet } ∧
      ∃ attr, Keyed.get? sheet "frames" = some attr ∧
        attr.holdings = [[.long 9007199254740993], [.long 1]] ∧
        ∀ held ∈ attr.holdings, ∃ n : Int64, held = [.long n] ∧
          ((1 / 2 : ℚ) ≤ n.toInt ∨ (Long.toDouble n == 0.5) = true ∧ 2 ^ 53 < n.toInt.natAbs) ∧
          ((n.toInt : ℚ) ≤ 2 ^ 53 ∨
            (Long.toDouble n == 9007199254740992.0) = true ∧ 2 ^ 53 < n.toInt.natAbs) := by
  obtain ⟨sheet, hrun, attr, hattr, hscope, hheld⟩ := exists_counted
  simp only [Attribute.scope, Prod.mk.injEq] at hscope
  obtain ⟨hkind, hlo, hhi, -⟩ := hscope
  exact ⟨sheet, hrun, attr, hattr, hheld, longs_within_limits unmoved counted hrun hattr hkind hlo hhi
    fraction_frames.1 fraction_frames.2 ⟨1, one_within_frames⟩⟩

/-- The integer that passes the upper limit by one is held, so not all of them are within the limits. -/
theorem not_forall_longs_within_limits :
    ¬ ∀ (steps : List (Step Unit)) (watch : Watch Unit), runAll unmoved steps {} = some watch →
      ∀ (name : String) (attr : Attribute), watch.sheet.get? name = some attr → attr.kind = .long →
        ∀ (lo hi : Float) (least greatest : ℚ), attr.least? = some lo → attr.greatest? = some hi →
          Double.fraction? lo = some least → Double.fraction? hi = some greatest →
            (∃ m : Int64, least ≤ m.toInt ∧ m.toInt ≤ greatest) →
              ∀ n : Int64, attr.value = [.long n] → least ≤ n.toInt ∧ n.toInt ≤ greatest := by
  intro hall
  obtain ⟨sheet, hrun, attr, hattr, hscope, hheld⟩ := exists_counted
  simp only [Attribute.scope, Prod.mk.injEq] at hscope
  obtain ⟨hkind, hlo, hhi, -⟩ := hscope
  have hpassed := (hall _ _ hrun _ _ hattr hkind _ _ _ _ hlo hhi fraction_frames.1 fraction_frames.2
    ⟨1, one_within_frames⟩ _ (List.cons.inj hheld).1).2
  have hinteger : (9007199254740993 : Int64).toInt = 2 ^ 53 + 1 := by decide
  rw [hinteger] at hpassed
  norm_num at hpassed

/-- Whatever is asked of a sheet, every double that is held under limits in order is within them, and is no
NaN. The components of colors are between zero and one, or NaNs. A color takes in a NaN just if one is among
the numbers that it is given. -/
theorem numbers_within_limits (react : Reactions L) (steps : List (Step L)) {watch : Watch L}
    (hrun : runAll react steps {} = some watch) {name : String} {attr : Attribute}
    (hattr : watch.sheet.get? name = some attr) (hnumeric : attr.kind.isNumeric = true) :
    (∀ held ∈ attr.holdings, ∃ xs : List Float, xs.length = attr.kind.components ∧
      held = xs.map (.double ·) ∧ ∀ x ∈ xs,
        if attr.kind = .color then x.isNaN = true ∨ 0.0 ≤ x ∧ x ≤ 1.0
        else ∀ lo hi, attr.least? = some lo → attr.greatest? = some hi → lo ≤ hi →
          x.isNaN = false ∧ lo ≤ x ∧ x ≤ hi) ∧
      (attr.kind = .color → ∀ atoms taken, attr.conform atoms = some taken →
        ((∃ x, .double x ∈ taken ∧ x.isNaN = true) ↔
          ∃ x ∈ Attribute.leadingNumbers 4 atoms, x.isNaN = true)) := by
  refine ⟨fun held hheld => ?_, fun hcolor atoms taken h => Attribute.exists_isNaN_of_conform hcolor h⟩
  have hitems : attr.kind ≠ .enum [] := by
    intro hkind
    rw [hkind] at hnumeric
    cases hnumeric
  have hstays := stays_of_runAll hrun hattr hitems hheld
  obtain ⟨xs, hlength, rfl⟩ := Attribute.exists_of_conform hnumeric hstays.conform
  refine ⟨attr.fit xs, by rw [Attribute.length_fit, hlength], rfl, fun x hx => ?_⟩
  split
  · next hcolor =>
    rw [Attribute.fit_of_color hcolor] at hx
    obtain ⟨y, -, rfl⟩ := List.mem_map.mp hx
    cases hy : y.isNaN with
    | true => exact Or.inl (by rw [Attribute.clampUnit_of_isNaN hy, hy])
    | false => exact Or.inr (Attribute.clampUnit_within hy)
  · next hcolor =>
    intro lo hi hlo hhi hlimits
    obtain ⟨y, rfl⟩ := Attribute.exists_clamp_of_mem_fit hcolor hx
    have hwithin := Attribute.clamp_within hlo hhi hlimits y
    exact ⟨(Double.isNaN_of_le hwithin.1).2, hwithin⟩

/-- A size within limits with a tied height, and a color. Both are given a NaN. -/
def drawn : List (Step Unit) :=
  [.add ⟨"box", .size, trivial, [], [.range 10.0 100.0, .ratio 0.5]⟩,
    .add ⟨"tint", .color, trivial, [], []⟩,
    .set "box" [.double Float.nan], .set "tint" [.double Float.nan, .double 0.5, .long 7]]

set_option maxRecDepth 4096 in
/-- The size holds none, but the color does. -/
theorem exists_drawn : ∃ sheet, runAll unmoved drawn {} = some { sheet } ∧
    (∃ attr, Keyed.get? sheet "box" = some attr ∧
      attr.scope = (.size, some 10.0, some 100.0, some 0.5) ∧
      attr.holdings = [[.double 10.0, .double 10.0], [.double 10.0, .double 10.0]]) ∧
    ∃ attr, Keyed.get? sheet "tint" = some attr ∧ attr.scope = (.color, none, none, none) ∧
      attr.holdings = [[.double Float.nan, .double 0.5, .double 1.0, .double 1.0],
        [.double 0.0, .double 0.0, .double 0.0, .double 1.0]] :=
  ⟨drawn.foldl Step.alone [], runAll_alone (by decide) [],
    exists_attribute (by decide) rfl, exists_attribute (by decide) rfl⟩

/-- All that the size holds is within its limits, and the components of the color are between zero and one
but for the NaN. -/
theorem numbers_within_limits_drawn :
    ∃ sheet, runAll unmoved drawn {} = some { sheet } ∧
      (∃ attr, Keyed.get? sheet "box" = some attr ∧
        ∀ held ∈ attr.holdings, ∃ xs : List Float, xs.length = 2 ∧ held = xs.map (.double ·) ∧
          ∀ x ∈ xs, x.isNaN = false ∧ 10.0 ≤ x ∧ x ≤ 100.0) ∧
      ∃ attr, Keyed.get? sheet "tint" = some attr ∧
        ∀ held ∈ attr.holdings, ∃ xs : List Float, xs.length = 4 ∧ held = xs.map (.double ·) ∧
          ∀ x ∈ xs, x.isNaN = true ∨ 0.0 ≤ x ∧ x ≤ 1.0 := by
  obtain ⟨sheet, hrun, ⟨box, hbox, hboxScope, -⟩, tint, htint, htintScope, -⟩ := exists_drawn
  simp only [Attribute.scope, Prod.mk.injEq] at hboxScope
  obtain ⟨hsize, hlo, hhi, -⟩ := hboxScope
  have hcolor : tint.kind = .color := congrArg Prod.fst htintScope
  refine ⟨sheet, hrun, ⟨box, hbox, fun held hheld => ?_⟩, tint, htint, fun held hheld => ?_⟩
  · obtain ⟨xs, hlength, heq, hwithin⟩ :=
      (numbers_within_limits unmoved drawn hrun hbox (by rw [hsize]; rfl)).1 held hheld
    rw [hsize] at hlength hwithin
    exact ⟨xs, hlength, heq, fun x hx => hwithin x hx _ _ hlo hhi (by decide)⟩
  · obtain ⟨xs, hlength, heq, hwithin⟩ :=
      (numbers_within_limits unmoved drawn hrun htint (by rw [hcolor]; rfl)).1 held hheld
    rw [hcolor] at hlength hwithin
    exact ⟨xs, hlength, heq, hwithin⟩

/-- The color holds the NaN, so not all components of colors are between zero and one. -/
theorem not_forall_colors_within_limits :
    ¬ ∀ (steps : List (Step Unit)) (watch : Watch Unit), runAll unmoved steps {} = some watch →
      ∀ (name : String) (attr : Attribute), watch.sheet.get? name = some attr → attr.kind = .color →
        ∀ x, .double x ∈ attr.value → 0.0 ≤ x ∧ x ≤ 1.0 := by
  intro hall
  obtain ⟨sheet, hrun, -, tint, htint, hscope, hheld⟩ := exists_drawn
  have hcolor : tint.kind = .color := congrArg Prod.fst hscope
  have hvalue := (List.cons.inj hheld).1
  have hwithin := hall _ _ hrun _ _ htint hcolor Float.nan (hvalue ▸ List.mem_cons_self)
  exact absurd hwithin (by decide)

end Watch

end Patchbay
