import Patchbay.Proofs.Atom.Unchanged
import Patchbay.Proofs.Attribute.Watching

/-!
# Setting an attribute

An attribute that is open to setting holds afterwards what it makes of the atoms, unless that counts as
what it holds already; then it keeps what it holds. Only a list may so keep atoms of other variants. The
values of the other kinds are the same then, but for the sign of zeros.

Setting the same atoms again finds nothing to change, so nobody is told. For a geometric value of which
not all components were given this rests on the missing ones: they are taken from what is stored, which is
within the limits.
-/

namespace Patchbay

/-- Two atoms are the same, or zeros of either sign. -/
inductive Atom.Twin : Atom → Atom → Prop
  | same (atom : Atom) : Twin atom atom
  | zeros (x y : Float) (hx : (x == 0.0) = true) (hy : (y == 0.0) = true) : Twin (.double x) (.double y)

/-- Doubles that count as unchanged are the same, or zeros of either sign. -/
theorem Atom.twin_of_unchanged {x y : Float}
    (h : Atom.unchanged (.double x) (.double y) = true) : Twin (.double x) (.double y) := by
  rw [Atom.unchanged, Bool.or_eq_true, Bool.and_eq_true] at h
  rcases h with hequal | ⟨hx, hy⟩
  · rcases (Float.beq_iff_ne_nan_and_eq.mp hequal).2.2 with rfl | ⟨rfl, rfl⟩ | ⟨rfl, rfl⟩
    · exact .same _
    · exact .zeros _ _ (by decide +kernel) (by decide +kernel)
    · exact .zeros _ _ (by decide +kernel) (by decide +kernel)
  · rw [Float.isNaN_eq_decide_eq_nan, decide_eq_true_eq] at hx hy
    rw [hx, hy]
    exact .same _

/-- An enumeration without items has no values. -/
theorem Kind.Shape.ne_enum_nil {kind : Kind} {value : List Atom} (h : kind.Shape value) :
    kind ≠ .enum [] := by
  rintro rfl
  cases h with
  | item _ n hlow hhigh => exact absurd (hlow.trans_lt hhigh) (lt_irrefl 0)
  | numbers hnumeric => cases hnumeric

/-- Values of one kind other than a list that count as unchanged are the same, but for the sign of zeros. -/
theorem Kind.Shape.twins {kind : Kind} {first second : List Atom} (hfirst : kind.Shape first)
    (hsecond : kind.Shape second) (hkind : kind ≠ .list)
    (h : Atom.unchangedList first second = true) : List.Forall₂ Atom.Twin first second := by
  rw [Atom.unchangedList_iff] at h
  -- Atoms of one variant that has no doubles count as unchanged only if they are the same.
  have hsingle : ∀ {α : Type} [DecidableEq α] (variant : α → Atom) {a b : α}, (a == b) = true →
      List.Forall₂ Atom.Twin [variant a] [variant b] := by
    intro α _ variant a b hequal
    obtain rfl := beq_iff_eq.mp hequal
    exact .cons (.same _) .nil
  cases hfirst with
  | truth value =>
    cases hsecond with
    | truth other => exact hsingle .bool (List.forall₂_cons.mp h).1
    | numbers hnumeric => cases hnumeric
  | whole n =>
    cases hsecond with
    | whole other => exact hsingle .long (List.forall₂_cons.mp h).1
    | numbers hnumeric => cases hnumeric
  | word text =>
    cases hsecond with
    | word other => exact hsingle .symbol (List.forall₂_cons.mp h).1
    | numbers hnumeric => cases hnumeric
  | item items n =>
    cases hsecond with
    | item _ other => exact hsingle .long (List.forall₂_cons.mp h).1
    | numbers hnumeric => cases hnumeric
  | list => exact absurd rfl hkind
  | numbers hnumeric xs =>
    cases hsecond with
    | truth | whole | word | item => cases hnumeric
    | list => exact absurd rfl hkind
    | numbers _ ys =>
      rw [List.forall₂_map_left_iff, List.forall₂_map_right_iff] at h ⊢
      exact h.imp fun _ _ => Atom.twin_of_unchanged

namespace Attribute

variable {attr other : Attribute} {atoms value : List Atom} {sides : List Float} {ratio : Float}

/-! ### Taking in the same atoms again -/

/-- A component of a geometric value: the one given, or else the one held. -/
def component (attr : Attribute) (given : List Float) (i : Nat) : Float :=
  attr.clamp (given[i]?.getD ((attr.value[i]?.map Atom.toDouble).getD 0.0))

/-- A geometric value has a component for each place, if any is given. -/
theorem components?_eq (attr : Attribute) (atoms : List Atom) :
    attr.components? atoms =
      if (leadingNumbers attr.kind.components atoms).isEmpty then none
      else some ((List.range attr.kind.components).map
        (attr.component (leadingNumbers attr.kind.components atoms))) := rfl

/-- Without a ratio nothing is tied. -/
theorem tie_of_ratio_eq_none (h : attr.ratio? = none) (sides : List Float) : attr.tie sides = sides := by
  unfold tie
  rw [h]
  split
  · next hratio => cases hratio
  · rfl

/-- With one a size goes by its width. -/
theorem conform_tied (hkind : attr.kind = .size) (hratio : attr.ratio? = some ratio) :
    attr.conform atoms =
      if (leadingNumbers 2 atoms).isEmpty then none
      else
        let width := attr.component (leadingNumbers 2 atoms) 0
        some [.double width, .double (attr.clamp (width * ratio))] := by
  have hcount : attr.kind.components = 2 := by rw [hkind]; rfl
  rw [conform_size hkind, components?_eq, hcount]
  split
  · rfl
  · simp [tie, hkind, hratio, List.range_succ]

section Again

variable (hscope : other.scope = attr.scope)

include hscope

/-- Attributes of the same limits bring a number to the same. -/
theorem clamp_of_scope : other.clamp = attr.clamp := by
  simp only [scope, Prod.mk.injEq] at hscope
  funext x
  simp only [clamp, hscope]

/-- A component stays if it is given, or if it is what is held now. -/
theorem component_again {given : List Float} {i : Nat}
    (h : given[i]? = none → other.value[i]? = some (.double (attr.component given i))) :
    other.component given i = attr.component given i := by
  cases hgiven : given[i]? with
  | some x => simp only [component, hgiven, clamp_of_scope hscope, Option.getD_some]
  | none =>
    rw [component, h hgiven, clamp_of_scope hscope, component, hgiven]
    exact attr.clamp_clamp _

/-- Components that are held as they were taken in are taken in again. -/
theorem components?_again (h : attr.components? atoms = some sides)
    (hvalue : other.value = sides.map (.double ·)) : other.components? atoms = some sides := by
  have hkind : other.kind = attr.kind := congrArg Prod.fst hscope
  rw [components?_eq] at h ⊢
  rw [hkind]
  split at h
  · cases h
  next hgiven =>
  obtain rfl := Option.some.inj h
  rw [if_neg hgiven, Option.some.injEq]
  refine List.map_congr_left fun i hi => component_again hscope fun _ => ?_
  have hinside : i < attr.kind.components := List.mem_range.mp hi
  simp [hvalue, hinside]

/-- So is a size, the height by the width that is given. -/
theorem conform_size_again (hkind : attr.kind = .size) (h : attr.conform atoms = some value)
    (hvalue : other.value = value) : other.conform atoms = some value := by
  obtain ⟨hother, -, -, hratioEq⟩ : other.kind = .size ∧ other.least? = attr.least? ∧
      other.greatest? = attr.greatest? ∧ other.ratio? = attr.ratio? := by
    simpa [scope, hkind] using hscope
  cases hratio : attr.ratio? with
  | none =>
    have hloose := hratioEq.trans hratio
    simp only [conform_size hkind, tie_of_ratio_eq_none hratio, Option.map_eq_some_iff] at h
    obtain ⟨sides, hsides, rfl⟩ := h
    simp only [conform_size hother, tie_of_ratio_eq_none hloose, components?_again hscope hsides hvalue,
      Option.map_some]
  | some ratio =>
    rw [conform_tied hkind hratio] at h
    rw [conform_tied hother (hratioEq.trans hratio), ← h, clamp_of_scope hscope]
    split
    · rfl
    next hgiven =>
    have hwidth : other.component (leadingNumbers 2 atoms) 0 =
        attr.component (leadingNumbers 2 atoms) 0 := component_again hscope fun hnone => by
      rw [List.getElem?_eq_none_iff, Nat.le_zero, List.length_eq_zero_iff] at hnone
      exact absurd (List.isEmpty_iff.mpr hnone) hgiven
    rw [hwidth]

/-- What an attribute makes of atoms is made of them again where it is held. Only points, sizes and
rectangles go by what is held at all. -/
theorem conform_again (h : attr.conform atoms = some value) (hvalue : other.value = value) :
    other.conform atoms = some value := by
  obtain ⟨hother, hleast, hgreatest, -⟩ : other.kind = attr.kind ∧ other.least? = attr.least? ∧
      other.greatest? = attr.greatest? ∧ other.ratio? = attr.ratio? := by
    simpa [scope] using hscope
  rw [← h]
  cases hkind : attr.kind with
  | bool | symbol | enum | color | list => simp only [conform, hother, hkind]
  | long => simp only [conform, hother, hkind, clampLong, hleast, hgreatest]
  | double => simp only [conform, hother, hkind, clamp_of_scope hscope]
  | point | rect =>
    simp only [conform, hother, hkind, Option.map_eq_some_iff] at h ⊢
    obtain ⟨sides, hsides, rfl⟩ := h
    rw [components?_again hscope hsides hvalue, hsides]
  | size => rw [h, conform_size_again hscope hkind h hvalue]

end Again

end Attribute

/-- An attribute that is open to setting and takes the atoms in stores what it makes of them, unless that
counts as what it holds. -/
theorem Sheet.store?_of_conform {sheet : Sheet} {name : String} {attr : Attribute} {atoms value : List Atom}
    (hattr : sheet.get? name = some attr) (hopen : attr.flags.disabled = false)
    (hvalue : attr.conform atoms = some value) :
    sheet.store? name atoms false =
      if Atom.unchangedList value attr.value then none
      else some (sheet.set name { attr with value }) := by
  simp [store?, hattr, hopen, hvalue]

namespace Watch

variable {L : Type}

/-! ### Listeners that set nothing -/

/-- Listeners that set nothing when they are told. -/
def unmoved : Reactions L := fun _ _ _ _ => []

/-- They are told one after the other, all of the same value. -/
theorem announce_unmoved (watch : Watch L) (depth : Nat) (name : String) (change : Patchbay.Change)
    (listeners : List L) (run : Run L) :
    announce watch unmoved (depth + 1) name change listeners run =
      some { run with calls := run.calls ++ listeners.map (⟨·, name, change, run.value name⟩) } := by
  induction listeners generalizing run with
  | nil => simp [announce]
  | cons listener listeners ih =>
    simp only [announce, unmoved, storeAll, Option.bind_some]
    rw [ih]
    simp [Run.value]

variable {watch : Watch L} {name : String} {attr : Attribute} {atoms value : List Atom}

/-- Setting an attribute stores the value and tells those that asked for it, unless the attribute holds the
value already. -/
theorem set_unmoved (hattr : watch.sheet.get? name = some attr) (hopen : attr.flags.disabled = false)
    (hvalue : attr.conform atoms = some value) :
    watch.set unmoved name atoms =
      some (if Atom.unchangedList value attr.value then ⟨watch, [], false⟩
        else
          ⟨{ watch with sheet := watch.sheet.set name { attr with value } },
            if attr.flags.silent then [] else (watch.targets name).map (⟨·, name, .value, value⟩), true⟩) := by
  have hstored := Keyed.get?_set_self watch.sheet name { attr with value }
  rw [Watch.set, put, attempt, start, Sheet.store?_of_conform hattr hopen hvalue]
  cases hunchanged : Atom.unchangedList value attr.value with
  | true => rfl
  | false =>
    simp only [Bool.false_eq_true, if_false, Sheet.reports, hstored]
    cases attr.flags.silent with
    | true => rfl
    | false =>
      have hnow : (⟨watch.sheet.set name { attr with value }, []⟩ : Run L).value name = value := by
        rw [Run.value, Sheet.value, hstored]
        rfl
      rw [Bool.not_false, if_pos rfl, show depthLimit = 4095 + 1 from rfl, announce_unmoved, hnow]
      rfl

/-- Setting an attribute to the same atoms again changes nothing, and nobody is told. -/
theorem set_unmoved_again (hattr : watch.sheet.get? name = some attr) (hopen : attr.flags.disabled = false)
    (hvalue : attr.conform atoms = some value) {first : Outcome L}
    (hfirst : watch.set unmoved name atoms = some first) :
    first.watch.set unmoved name atoms = some ⟨first.watch, [], false⟩ := by
  rw [set_unmoved hattr hopen hvalue] at hfirst
  split at hfirst
  · next hunchanged =>
    obtain rfl := Option.some.inj hfirst
    rw [set_unmoved hattr hopen hvalue, if_pos hunchanged]
  · obtain rfl := Option.some.inj hfirst
    have hstored := Keyed.get?_set_self watch.sheet name { attr with value }
    have hopened : ({ attr with value } : Attribute).flags.disabled = false := hopen
    have hagain : ({ attr with value } : Attribute).conform atoms = some value := by
      refine Attribute.conform_again ?_ hvalue rfl
      rfl
    rw [set_unmoved hstored hopened hagain, if_pos (Atom.unchangedList_self value)]

variable [DecidableEq L]

/-- The attributes of a sheet that was asked for anything are orderly. -/
theorem orderly_of_runAll {react : Reactions L} {steps : List (Step L)}
    (hrun : runAll react steps {} = some watch) : watch.sheet.Orderly :=
  of_foldlM (P := fun watch : Watch L => watch.sheet.Orderly)
    (fun _ _ _ _ h hrun => Step.orderly h hrun) (by simp [Sheet.Orderly]) hrun

/-- Whatever was asked of a sheet before: an attribute that is open to setting and takes the atoms in holds
afterwards what it made of them, unless that counted as what it held. Then it holds what it held. For every
kind but a list the two are the same, but for the sign of zeros. Setting the same atoms again changes
nothing, and nobody is told. -/
theorem set_settles (react : Reactions L) (steps : List (Step L)) {watch : Watch L}
    (hrun : runAll react steps {} = some watch) {name : String} {attr : Attribute}
    (hattr : watch.sheet.get? name = some attr) (hopen : attr.flags.disabled = false)
    {atoms value : List Atom} (hvalue : attr.conform atoms = some value) :
    ∃ first, watch.set unmoved name atoms = some first ∧
      first.changed = !Atom.unchangedList value attr.value ∧
      first.watch.sheet.value name = (if first.changed then value else attr.value) ∧
      (attr.kind ≠ .list → List.Forall₂ Atom.Twin value (first.watch.sheet.value name)) ∧
      first.watch.set unmoved name atoms = some ⟨first.watch, [], false⟩ := by
  have hfirst := set_unmoved hattr hopen hvalue
  have hagain := set_unmoved_again hattr hopen hvalue hfirst
  cases hunchanged : Atom.unchangedList value attr.value with
  | true =>
    rw [hunchanged, if_pos rfl] at hfirst hagain
    have hheld : watch.sheet.value name = attr.value := by
      rw [Sheet.value, hattr]
      rfl
    refine ⟨_, hfirst, rfl, hheld, fun hkind => ?_, hagain⟩
    have horderly : attr.Orderly := orderly_of_runAll hrun _ (Keyed.mem_of_get? hattr)
    have hshape : attr.kind.Shape value := Attribute.shape_conform horderly.indexed hvalue
    rw [hheld]
    exact hshape.twins (horderly.value hshape.ne_enum_nil).shape hkind hunchanged
  | false =>
    rw [hunchanged, if_neg Bool.false_ne_true] at hfirst hagain
    have hheld : Sheet.value (watch.sheet.set name { attr with value }) name = value := by
      rw [Sheet.value, Keyed.get?_set_self]
      rfl
    refine ⟨_, hfirst, rfl, hheld, fun _ => ?_, hagain⟩
    rw [hheld]
    exact List.forall₂_same.mpr fun atom _ => .same atom

/-- A point within limits, declared by integers. -/
def spot : Declaration := ⟨"spot", .point, trivial, [.long 1, .long 2], [.range 0.0 10.0]⟩

/-- Of a point that is watched the first component is set, beyond the limits. -/
theorem set_settles_spot :
    ∃ first : Outcome Unit,
      set ⟨[("spot", spot.declared)], [⟨(), ["spot"]⟩]⟩ unmoved "spot" [.long 30] = some first ∧
        first.changed = true ∧ first.watch.sheet.value "spot" = [.double 10.0, .double 2.0] ∧
        first.watch.set unmoved "spot" [.long 30] = some ⟨first.watch, [], false⟩ := by
  have hrun : runAll unmoved [.add spot, .bind () ["spot"]] {} =
      some ⟨[("spot", spot.declared)], [⟨(), ["spot"]⟩]⟩ := rfl
  have hattr : Keyed.get? [("spot", spot.declared)] "spot" = some spot.declared := rfl
  have hsides : spot.declared.components? [.long 30] = some [10.0, 2.0] := by decide +kernel
  have hvalue : spot.declared.conform [.long 30] = some [.double 10.0, .double 2.0] :=
    congrArg (Option.map (List.map fun x => Atom.double x)) hsides
  have hdiffers : Atom.unchangedList [.double 10.0, .double 2.0] spot.declared.value = false := by
    decide +kernel
  obtain ⟨first, hfirst, hchanged, hheld, -, hagain⟩ := set_settles unmoved _ hrun hattr rfl hvalue
  rw [hdiffers] at hchanged
  rw [hchanged] at hheld
  exact ⟨first, hfirst, hchanged, hheld, hagain⟩

/-- A list of one integer. -/
def notes : Declaration := ⟨"notes", .list, trivial, [.long 1], []⟩

/-- Such a list keeps the integer when it is set to the double of the same value: what is made of the atoms
is not always what is held afterwards. -/
theorem not_forall_set_stores :
    ¬ ∀ (steps : List (Step Unit)) (watch : Watch Unit), runAll unmoved steps {} = some watch →
      ∀ (name : String) (attr : Attribute), watch.sheet.get? name = some attr →
        attr.flags.disabled = false → ∀ atoms value : List Atom, attr.conform atoms = some value →
          ∃ first, watch.set unmoved name atoms = some first ∧
            first.watch.sheet.value name = value := by
  intro hall
  have hrun : runAll unmoved [.add notes] {} = some (⟨[("notes", notes.declared)], []⟩ : Watch Unit) := rfl
  have hattr : Keyed.get? [("notes", notes.declared)] "notes" = some notes.declared := rfl
  have hvalue : notes.declared.conform [.double 1.0] = some [.double 1.0] := rfl
  have hequal : Atom.unchangedList [.double 1.0] notes.declared.value = true := by decide +kernel
  obtain ⟨first, hfirst, hheld⟩ := hall _ _ hrun _ _ hattr rfl _ _ hvalue
  rw [set_unmoved hattr rfl hvalue, hequal, if_pos rfl] at hfirst
  obtain rfl := Option.some.inj hfirst
  cases (List.cons.inj hheld).1

end Watch

end Patchbay
