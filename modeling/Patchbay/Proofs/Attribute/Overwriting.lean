import Patchbay.Proofs.Attribute.Regular

/-!
# Loading and saving over what is there

A sheet that loads what another one of the same declarations has saved holds the saved values, whatever it
held before. Its snapshots are another matter: a load keeps snapshots of the attributes that were saved
frozen, but takes none back. So an attribute that was frozen before stays frozen, with the snapshot that it
had, and it is this old snapshot that is saved the next time.

Saving over an earlier save replaces all its entries in the same way, but for the list of the frozen
attributes. That one is left where it is if no attribute is frozen any more.
-/

namespace Patchbay

namespace Attribute

variable {attr saved : Attribute}

/-- An attribute holds what was saved of another: the same atoms but for the sign of zeros. A list may hold
atoms of other variants that count as the same. -/
structure Resembles (attr saved : Attribute) : Prop where
  same : Atom.unchangedList saved.record attr.value = true
  twins : saved.kind ≠ .list → List.Forall₂ Atom.Twin saved.record attr.value

/-- What was saved replaces what an attribute held. A snapshot of it is kept if it was listed as frozen. If
not, the snapshot that there was stays. -/
structure Replaces (saved : Attribute) (listed : Bool) (before after : Attribute) : Prop where
  outline : after.outline = saved.outline
  resembles : after.Resembles saved
  frozen : after.frozen? = if listed then some after.value else before.frozen?

/-- What is saved is something held. -/
theorem record_mem_holdings (attr : Attribute) : attr.record ∈ attr.holdings := by
  unfold record holdings
  cases attr.frozen? <;> simp

/-- An attribute that accepts what was saved of one of the same outline holds it. -/
theorem resembles_accept (h : attr.Orderly ∧ attr.Idle) (hsaved : saved.Orderly ∧ saved.Idle)
    (houtline : attr.outline = saved.outline) : (attr.accept saved.record).Resembles saved := by
  have hkind : attr.kind = saved.kind := congrArg Outline.kind houtline
  by_cases hitems : saved.kind = .enum []
  · have hzero : saved.record = [.long 0] := hsaved.2 hitems _ saved.record_mem_holdings
    have hvalue : attr.value = [.long 0] := h.2 (hkind.trans hitems) _ List.mem_cons_self
    rw [accept_of_enum_nil (hkind.trans hitems)]
    refine ⟨by rw [hzero, hvalue]; exact Atom.unchangedList_self _, fun _ => ?_⟩
    rw [hzero, hvalue]
    exact List.forall₂_same.mpr fun atom _ => .same atom
  · have hstays : attr.Stays saved.record := (hsaved.1.record hitems).congr (scope_of_outline houtline)
    have hsame := hstays.regains_self.accept
    refine ⟨hsame, fun hlist => ?_⟩
    have hafter : (attr.accept saved.record).kind = attr.kind :=
      congrArg Outline.kind (attr.outline_accept _)
    have hheld := ((h.1.accept saved.record).value (by rwa [hafter, hkind])).shape
    rw [hafter] at hheld
    exact hstays.shape.twins hheld (hkind ▸ hlist) hsame

/-- Restoring leaves the outline as it is, also if the dico has nothing for the attribute. -/
theorem outline_renewed (dico : Dico) (all : Bool) (attr : Attribute) :
    (attr.renewed dico all).outline = attr.outline := by
  unfold renewed
  split
  · exact attr.outline_restored dico
  · rfl

end Attribute

namespace Sheet

variable {sheet other : Sheet} {attr saved : Attribute} {name : String}

/-! ### What is found afterwards -/

/-- An attribute of a restored sheet is the restored attribute. -/
theorem Regular.get?_restore (h : sheet.Regular) (dico : Dico) (all : Bool) (name : String) :
    Keyed.get? (sheet.restore dico all) name = (Keyed.get? sheet name).map (Attribute.renewed dico all) := by
  rw [restore_eq_map h.names h.distinct, Keyed.get?_map]

/-- A restored sheet has the attributes that it had. -/
theorem Regular.restore_matches (h : sheet.Regular) (dico : Dico) (all : Bool) :
    (sheet.restore dico all).Matches sheet := by
  intro name
  rw [h.get?_restore, Option.map_map]
  congr 1
  funext attr
  exact attr.outline_renewed dico all

/-- It is regular. -/
theorem Regular.restore (h : sheet.Regular) (dico : Dico) (all : Bool) :
    Regular (sheet.restore dico all) := by
  have hstep : (Watch.Step.restore dico all : Watch.Step Unit).run Watch.unmoved { sheet } =
      some { sheet := sheet.restore dico all } := Watch.Step.run_alone rfl sheet
  exact Watch.Step.regular h hstep

/-- Under each name the attribute of that name is saved, and under the reserved one the list of the frozen
attributes if there are any. Under all others is what was there. -/
theorem Regular.get?_write (h : sheet.Regular) (dico : Dico) (name : String) :
    Keyed.get? (sheet.write dico) name =
      if name = frozenKey ∧ sheet.kept.snapshots ≠ [] then some sheet.kept.snapshots
      else (((Keyed.get? sheet name).filter fun attr => !attr.flags.unsaved).map Attribute.record).or
        (Keyed.get? dico name) := by
  have hkept : (Keyed.keys sheet.kept).Nodup := h.distinct.sublist (List.Sublist.map _ List.filter_sublist)
  have hrecords : (Keyed.keys (sheet.kept.map fun entry => (entry.1, entry.2.record))).Nodup := by
    rw [Keyed.keys, List.map_map]
    exact hkept
  have hfound : Keyed.get? sheet.kept name =
      (Keyed.get? sheet name).filter fun attr => !attr.flags.unsaved :=
    Keyed.get?_filter h.distinct (fun attr => !attr.flags.unsaved) name
  have hmerged := Keyed.get?_merge hrecords dico name
  rw [Keyed.get?_map sheet.kept Attribute.record, hfound] at hmerged
  rw [write_eq_merge h.names]
  dsimp only
  split
  · next hnone => rw [if_neg (by simp [List.isEmpty_iff.mp hnone]), hmerged]
  · next hsome =>
    rw [List.isEmpty_iff] at hsome
    by_cases hname : name = frozenKey
    · rw [if_pos ⟨hname, hsome⟩, hname, Keyed.get?_set_self]
    · rw [if_neg fun hboth => hname hboth.1, Keyed.get?_set_of_ne _ _ (Ne.symm hname), hmerged]

/-- Each attribute that is saved is found as it was saved. -/
theorem Regular.get?_write_of_saved (h : sheet.Regular) (hattr : Keyed.get? sheet name = some attr)
    (hsaved : attr.flags.unsaved = false) (hname : name ≠ frozenKey) (dico : Dico) :
    Keyed.get? (sheet.write dico) name = some attr.record := by
  rw [h.get?_write, if_neg fun hboth => hname hboth.1, hattr]
  simp [Option.filter_some, hsaved]

/-- The keys of what is saved are distinct, if those of what was there are. -/
theorem Regular.nodup_write (h : sheet.Regular) {dico : Dico} (hdico : (Keyed.keys dico).Nodup) :
    (Keyed.keys (sheet.write dico)).Nodup := by
  have hmerged := Keyed.nodup_merge hdico (sheet.kept.map fun entry => (entry.1, entry.2.record))
  rw [write_eq_merge h.names]
  dsimp only
  split
  · exact hmerged
  · exact Keyed.nodup_set hmerged _ _

/-- What is saved over a save of a sheet with the same attributes is found as it is saved alone. Only the
list of frozen attributes is found as it was if there is none to save. -/
theorem Regular.get?_write_write (h : sheet.Regular) (hother : other.Regular) (hmatches : other.Matches sheet)
    (hfree : frozenKey ∉ Keyed.keys sheet) (name : String) :
    Keyed.get? (sheet.write (other.write [])) name =
      if name = frozenKey ∧ sheet.kept.snapshots = [] then Keyed.get? (other.write []) name
      else Keyed.get? (sheet.write []) name := by
  rw [h.get?_write, h.get?_write []]
  by_cases hname : name = frozenKey
  · have hnone : Keyed.get? sheet name = none := Keyed.get?_eq_none (hname ▸ hfree)
    by_cases hsnapshots : sheet.kept.snapshots = []
    · rw [if_neg fun hboth => hboth.2 hsnapshots, if_pos ⟨hname, hsnapshots⟩, hnone]
      rfl
    · rw [if_pos ⟨hname, hsnapshots⟩, if_neg fun hboth => hsnapshots hboth.2, if_pos ⟨hname, hsnapshots⟩]
  · rw [if_neg fun hboth => hname hboth.1, if_neg fun hboth => hname hboth.1,
      if_neg fun hboth => hname hboth.1]
    cases hattr : Keyed.get? sheet name with
    | none =>
      rw [hother.get?_write, if_neg fun hboth => hname hboth.1, hmatches.get?_eq_none hattr]
      rfl
    | some attr =>
      obtain ⟨found, hfound, houtline⟩ := hmatches.symm.exists_counterpart hattr
      have hflags : found.flags = attr.flags := congrArg Outline.flags houtline
      cases hkept : attr.flags.unsaved with
      | true =>
        rw [hother.get?_write, if_neg fun hboth => hname hboth.1, hfound]
        simp [Option.filter_some, hflags, hkept]
      | false => simp [Option.filter_some, hkept]

/-- There is no list of frozen attributes to save if no attribute is saved frozen. -/
theorem snapshots_eq_nil_iff (sheet : Sheet) :
    sheet.snapshots = [] ↔ ∀ entry ∈ sheet, entry.2.frozen? = none := by
  simp [snapshots, List.filter_eq_nil_iff]

/-- The dico that is saved lists an attribute as frozen if it has a snapshot, unless an attribute has the name
of the list. -/
theorem Regular.contains_frozenNames_write (h : sheet.Regular) (hfree : frozenKey ∉ Keyed.keys sheet)
    (hattr : Keyed.get? sheet name = some attr) (hsaved : attr.flags.unsaved = false) :
    (frozenNames (sheet.write [])).contains name = attr.frozen?.isSome := by
  have hget : Dico.get (sheet.write []) frozenKey = sheet.kept.snapshots := by
    rw [Dico.get, h.get?_write, Keyed.get?_eq_none hfree]
    split
    · rfl
    · next hboth =>
      rw [not_and, not_not] at hboth
      rw [hboth rfl]
      rfl
  have hkept : (name, attr) ∈ sheet.kept :=
    List.mem_filter.mpr ⟨Keyed.mem_of_get? hattr, by rw [hsaved]; rfl⟩
  exact contains_frozenNames (h.distinct.sublist (List.Sublist.map _ List.filter_sublist)) hget hkept

/-! ### Loading -/

/-- What one sheet has saved replaces what another sheet with the same attributes holds that loads it. -/
theorem Regular.load (h : sheet.Regular) (hother : other.Regular) (hmatches : other.Matches sheet)
    (hsaved : Keyed.get? other name = some saved) (hkept : saved.flags.unsaved = false)
    (hname : name ≠ frozenKey) :
    ∃ before after, Keyed.get? sheet name = some before ∧
      Keyed.get? (sheet.restore (other.write []) false) name = some after ∧
      saved.Replaces ((frozenNames (other.write [])).contains name) before after := by
  obtain ⟨before, hbefore, houtline⟩ := hmatches.exists_counterpart hsaved
  have hfound := hother.get?_write_of_saved hsaved hkept hname []
  have hself : before.name = name := h.names _ (Keyed.mem_of_get? hbefore)
  have hflags : before.flags = saved.flags := congrArg Outline.flags houtline
  have hget : (other.write []).get before.name = saved.record := by
    rw [Dico.get, hself, hfound, Option.getD_some]
  have hhas : (other.write []).has before.name = true := by
    rw [Keyed.has, hself, hfound]
    rfl
  have hrenewed : before.renewed (other.write []) false = before.restored (other.write []) := by
    rw [Attribute.renewed, hflags, hkept, hhas]
    rfl
  obtain ⟨hvalue, hfrozen⟩ := before.value_restored (other.write [])
  have hresembles := Attribute.resembles_accept (h.attributes _ (Keyed.mem_of_get? hbefore))
    (hother.attributes _ (Keyed.mem_of_get? hsaved)) houtline
  rw [hget] at hvalue
  rw [hself] at hfrozen
  refine ⟨before, before.restored (other.write []), hbefore, ?_, ?_⟩
  · rw [h.get?_restore, hbefore, Option.map_some, hrenewed]
  · exact {
      outline := (before.outline_restored _).trans houtline
      resembles := ⟨hvalue ▸ hresembles.same, hvalue ▸ hresembles.twins⟩
      frozen := hfrozen }

end Sheet

namespace Watch

variable {L : Type}

/-- Listeners that set nothing leave a value that is stored as it is. -/
theorem put_unmoved (watch : Watch L) (name : String) (atoms : List Atom) (force : Bool) (run : Run L) :
    ∃ calls changed, put watch unmoved name atoms force run =
      some (⟨(run.sheet.store? name atoms force).getD run.sheet, calls⟩, changed) := by
  rw [put, attempt]
  cases run.sheet.store? name atoms force with
  | none => exact ⟨run.calls, false, rfl⟩
  | some sheet =>
    dsimp only
    split
    · rw [show depthLimit = 4095 + 1 from rfl, announce_unmoved]
      exact ⟨_, true, rfl⟩
    · exact ⟨run.calls, true, rfl⟩

/-- Steps of a run that change the sheet in one way, whatever is called, change it so one after the other. -/
theorem exists_foldlM {α : Type} {step : Run L → α → Option (Run L)} (change : Sheet → α → Sheet)
    (hstep : ∀ run item, ∃ calls, step run item = some ⟨change run.sheet item, calls⟩) (items : List α)
    (run : Run L) : ∃ calls, items.foldlM step run = some ⟨items.foldl change run.sheet, calls⟩ := by
  induction items generalizing run with
  | nil => exact ⟨run.calls, rfl⟩
  | cons item items ih =>
    obtain ⟨calls, hitem⟩ := hstep run item
    rw [List.foldlM_cons, hitem]
    exact ih ⟨change run.sheet item, calls⟩

/-- They leave a sheet that is restored as it is. -/
theorem restore_unmoved (watch : Watch L) (dico : Dico) (all : Bool) :
    ∃ calls, watch.restore unmoved dico all =
      some ⟨{ watch with sheet := watch.sheet.restore dico all }, calls, true⟩ := by
  have houtcome : ∀ {run : Option (Run L)}, (∃ calls, run = some ⟨watch.sheet.restore dico all, calls⟩) →
      ∃ calls, (run.map fun run => watch.outcome (run, true)) =
        some ⟨{ watch with sheet := watch.sheet.restore dico all }, calls, true⟩ := by
    rintro _ ⟨calls, rfl⟩
    exact ⟨calls, rfl⟩
  apply houtcome
  apply exists_foldlM fun sheet name =>
    let stored := (sheet.store? name (dico.get name) true).getD sheet
    if (Sheet.frozenNames dico).contains name then stored.freeze name true else stored
  intro run name
  obtain ⟨calls, changed, hput⟩ := put_unmoved watch name (dico.get name) true run
  refine ⟨calls, ?_⟩
  rw [hput, Option.map_some]
  dsimp only
  split <;> rfl

variable [DecidableEq L]

/-- A sheet that attributes were only added to has no snapshots. -/
theorem frozen_of_runAll_add {react : Reactions L} {declarations : List Declaration} {fresh : Watch L}
    (hrun : runAll react (declarations.map .add) {} = some fresh) :
    ∀ entry ∈ fresh.sheet, entry.2.frozen? = none := by
  have hadded := runAll_add react declarations []
  rw [List.append_nil, hrun] at hadded
  obtain rfl := Option.some.inj hadded
  intro entry hentry
  obtain ⟨declaration, -, -, hattr⟩ := (Sheet.declared_declare declarations).entries entry hentry
  rw [hattr]
  exact declaration.fresh_declared.1.frozen

/-- Whatever was asked of a sheet before: once it has loaded two saves of sheets with the same attributes,
what the second save has of an attribute replaces what is left of the first one, just as it replaces what a
fresh sheet holds that loads it alone. The fresh sheet has no snapshots, so it has just those that the second
save lists. The other sheet keeps a snapshot that it had after the first load if the second save does not
list one, and saves it in place of the value. -/
theorem second_load_overwrites {react : Reactions L} {steps : List (Step L)} {held : Watch L}
    (hheld : runAll react steps {} = some held) {react₁ : Reactions L} {steps₁ : List (Step L)}
    {first : Watch L} (hfirst : runAll react₁ steps₁ {} = some first)
    (hfirstMatches : first.sheet.Matches held.sheet) {react₂ : Reactions L} {steps₂ : List (Step L)}
    {second : Watch L} (hsecond : runAll react₂ steps₂ {} = some second)
    (hsecondMatches : second.sheet.Matches held.sheet) {declarations : List Declaration} {fresh : Watch L}
    (hfresh : runAll unmoved (declarations.map .add) {} = some fresh)
    (hfreshMatches : held.sheet.Matches fresh.sheet) :
    ∃ once twice alone : Outcome L,
      held.restore unmoved (first.sheet.write []) false = some once ∧
      once.watch.restore unmoved (second.sheet.write []) false = some twice ∧
      fresh.restore unmoved (second.sheet.write []) false = some alone ∧
      ∀ name saved, Keyed.get? second.sheet name = some saved → saved.flags.unsaved = false →
        name ≠ frozenKey → ∃ earlier current before after new other,
          Keyed.get? first.sheet name = some earlier ∧ Keyed.get? held.sheet name = some current ∧
          Keyed.get? once.watch.sheet name = some before ∧ Keyed.get? twice.watch.sheet name = some after ∧
          Keyed.get? fresh.sheet name = some new ∧ Keyed.get? alone.watch.sheet name = some other ∧
          earlier.Replaces ((Sheet.frozenNames (first.sheet.write [])).contains name) current before ∧
          saved.Replaces ((Sheet.frozenNames (second.sheet.write [])).contains name) before after ∧
          saved.Replaces ((Sheet.frozenNames (second.sheet.write [])).contains name) new other ∧
          new.frozen? = none ∧
          Keyed.get? (twice.watch.sheet.write []) name = some (after.frozen?.getD after.value) ∧
          (frozenKey ∉ Keyed.keys held.sheet →
            (Sheet.frozenNames (second.sheet.write [])).contains name = saved.frozen?.isSome ∧
            (Sheet.frozenNames (twice.watch.sheet.write [])).contains name = after.frozen?.isSome) := by
  have hregular := regular_of_runAll hheld
  have hfirstRegular := regular_of_runAll hfirst
  have hsecondRegular := regular_of_runAll hsecond
  have hfreshRegular := regular_of_runAll hfresh
  have honceRegular := hregular.restore (first.sheet.write []) false
  have honceMatches := hregular.restore_matches (first.sheet.write []) false
  have htwiceRegular := honceRegular.restore (second.sheet.write []) false
  have htwiceMatches := (honceRegular.restore_matches (second.sheet.write []) false).trans honceMatches
  obtain ⟨onceCalls, honce⟩ := held.restore_unmoved (first.sheet.write []) false
  obtain ⟨twiceCalls, htwice⟩ := ({ held with
    sheet := held.sheet.restore (first.sheet.write []) false } : Watch L).restore_unmoved
      (second.sheet.write []) false
  obtain ⟨aloneCalls, halone⟩ := fresh.restore_unmoved (second.sheet.write []) false
  refine ⟨_, _, _, honce, htwice, halone, fun name saved hsaved hkept hname => ?_⟩
  obtain ⟨earlier, hearlier, houtline⟩ :=
    (hsecondMatches.trans hfirstMatches.symm).exists_counterpart hsaved
  have hearlierKept : earlier.flags.unsaved = false := by
    rw [show earlier.flags = saved.flags from congrArg Outline.flags houtline, hkept]
  obtain ⟨current, before, hcurrent, hbefore, hreplaced⟩ :=
    hregular.load hfirstRegular hfirstMatches hearlier hearlierKept hname
  obtain ⟨same, after, hsame, hafter, hreplacedAgain⟩ :=
    honceRegular.load hsecondRegular (hsecondMatches.trans honceMatches.symm) hsaved hkept hname
  obtain rfl := Option.some.inj (hbefore.symm.trans hsame)
  obtain ⟨new, other, hnew, hother, hreplacedFresh⟩ :=
    hfreshRegular.load hsecondRegular (hsecondMatches.trans hfreshMatches) hsaved hkept hname
  have hafterKept : after.flags.unsaved = false := by
    rw [show after.flags = saved.flags from congrArg Outline.flags hreplacedAgain.outline, hkept]
  refine ⟨earlier, current, before, after, new, other, hearlier, hcurrent, hbefore, hafter, hnew, hother,
    hreplaced, hreplacedAgain, hreplacedFresh, ?_, ?_, fun hfree => ⟨?_, ?_⟩⟩
  · exact frozen_of_runAll_add hfresh _ (Keyed.mem_of_get? hnew)
  · exact htwiceRegular.get?_write_of_saved hafter hafterKept hname []
  · exact hsecondRegular.contains_frozenNames_write (hsecondMatches.notMem_keys hfree) hsaved hkept
  · exact htwiceRegular.contains_frozenNames_write (htwiceMatches.notMem_keys hfree) hafter hafterKept

/-- A number of voices. -/
def voices : Declaration := ⟨"voices", .long, trivial, [.long 1], []⟩

/-- A sheet with some voices, and perhaps with a snapshot. -/
def voiced (n : Int64) (frozen? : Option (List Atom)) : Watch Unit :=
  { sheet := [("voices", { voices.declared with value := [.long n], frozen? })] }

/-- All these sheets have the same attribute. -/
theorem matches_voiced (m n : Int64) (frozen? other? : Option (List Atom)) :
    (voiced m frozen?).sheet.Matches (voiced n other?).sheet := by
  intro name
  simp only [voiced, Keyed.get?]
  split <;> rfl

/-- They are what is asked for. -/
theorem runAll_voiced :
    runAll unmoved [.add voices] {} = some (voiced 1 none) ∧
    runAll unmoved [.add voices, .set "voices" [.long 8], .freeze "voices" true] {} =
      some (voiced 8 (some [.long 8])) ∧
    runAll unmoved [.add voices, .set "voices" [.long 4]] {} = some (voiced 4 none) :=
  ⟨runAll_alone (by decide) [], runAll_alone (by decide) [], runAll_alone (by decide) []⟩

/-- Eight voices are loaded with a snapshot, and then four without one: the sheet has four voices and the
snapshot of eight, but a fresh one that loads the four alone has no snapshot. -/
theorem second_load_overwrites_voices :
    ∃ once twice alone : Outcome Unit,
      (voiced 1 none).restore unmoved ((voiced 8 (some [.long 8])).sheet.write []) false = some once ∧
      once.watch.restore unmoved ((voiced 4 none).sheet.write []) false = some twice ∧
      (voiced 1 none).restore unmoved ((voiced 4 none).sheet.write []) false = some alone ∧
      ∃ before after other, Keyed.get? once.watch.sheet "voices" = some before ∧
        Keyed.get? twice.watch.sheet "voices" = some after ∧
        Keyed.get? alone.watch.sheet "voices" = some other ∧
        Atom.unchangedList [.long 4] after.value = true ∧ Atom.unchangedList [.long 4] other.value = true ∧
        before.frozen? = some before.value ∧ after.frozen? = before.frozen? ∧ other.frozen? = none := by
  obtain ⟨hheld, hfirst, hsecond⟩ := runAll_voiced
  have hfresh : runAll unmoved ([voices].map .add) {} = some (voiced 1 none) := hheld
  obtain ⟨once, twice, alone, honce, htwice, halone, hloaded⟩ := second_load_overwrites hheld hfirst
    (matches_voiced 8 1 _ _) hsecond (matches_voiced 4 1 _ _) hfresh (matches_voiced 1 1 _ _)
  obtain ⟨_, _, before, after, new, other, -, -, hbefore, hafter, -, hother, hreplaced, hreplacedAgain,
    hreplacedFresh, hnone, -⟩ := hloaded "voices" { voices.declared with value := [.long 4] } rfl rfl
      (by decide)
  exact ⟨once, twice, alone, honce, htwice, halone, before, after, other, hbefore, hafter, hother,
    hreplacedAgain.resembles.same, hreplacedFresh.resembles.same, hreplaced.frozen, hreplacedAgain.frozen,
    hreplacedFresh.frozen.trans hnone⟩

/-- So loading twice is not loading the second save alone. -/
theorem not_forall_second_load_overwrites :
    ¬ ∀ (held first second fresh : Watch Unit) (steps₀ steps₁ steps₂ : List (Step Unit))
        (declarations : List Declaration), runAll unmoved steps₀ {} = some held →
      runAll unmoved steps₁ {} = some first → runAll unmoved steps₂ {} = some second →
        runAll unmoved (declarations.map .add) {} = some fresh →
          first.sheet.Matches held.sheet → second.sheet.Matches held.sheet →
            fresh.sheet.Matches held.sheet → ∀ once twice alone : Outcome Unit,
              held.restore unmoved (first.sheet.write []) false = some once →
              once.watch.restore unmoved (second.sheet.write []) false = some twice →
              fresh.restore unmoved (second.sheet.write []) false = some alone →
                ∀ name after other, Keyed.get? twice.watch.sheet name = some after →
                  Keyed.get? alone.watch.sheet name = some other → after.flags.unsaved = false →
                    after.frozen? = other.frozen? := by
  intro hall
  obtain ⟨hheld, hfirst, hsecond⟩ := runAll_voiced
  obtain ⟨_, honce⟩ := (voiced 1 none).restore_unmoved ((voiced 8 (some [.long 8])).sheet.write []) false
  obtain ⟨_, htwice⟩ := (voiced 8 (some [.long 8])).restore_unmoved ((voiced 4 none).sheet.write []) false
  obtain ⟨_, halone⟩ := (voiced 1 none).restore_unmoved ((voiced 4 none).sheet.write []) false
  have hsame := hall _ _ _ _ _ _ _ [voices] hheld hfirst hsecond hheld (matches_voiced 8 1 _ _)
    (matches_voiced 4 1 _ _) (matches_voiced 1 1 _ _) _ _ _ honce htwice halone "voices" _ _ rfl rfl rfl
  cases hsame

/-! ### Saving over an earlier save -/

/-- Whatever was asked of two sheets with the same attributes, of which none has the reserved name: what the
second one saves over a save of the first is what it saves into an empty dico. Only the list of frozen
attributes of the first is left as well, if no attribute of the second is saved frozen. -/
theorem save_overwrites {react₁ react₂ : Reactions L} {steps₁ steps₂ : List (Step L)}
    {first second : Watch L} (hfirst : runAll react₁ steps₁ {} = some first)
    (hsecond : runAll react₂ steps₂ {} = some second) (hmatches : first.sheet.Matches second.sheet)
    (hfree : frozenKey ∉ Keyed.keys second.sheet) (entry : String × List Atom) :
    entry ∈ second.sheet.write (first.sheet.write []) ↔
      entry ∈ second.sheet.write [] ∨
        entry ∈ first.sheet.write [] ∧ entry.1 = frozenKey ∧
          ∀ saved ∈ second.sheet.kept, saved.2.frozen? = none := by
  have h := regular_of_runAll hsecond
  have hbefore := regular_of_runAll hfirst
  have hempty : (Keyed.keys ([] : Dico)).Nodup := List.nodup_nil
  rw [Keyed.mem_iff_get? (h.nodup_write (hbefore.nodup_write hempty)),
    Keyed.mem_iff_get? (h.nodup_write hempty), Keyed.mem_iff_get? (hbefore.nodup_write hempty),
    ← Sheet.snapshots_eq_nil_iff, h.get?_write_write hbefore hmatches hfree]
  split
  · next hleft =>
    obtain ⟨hname, hsnapshots⟩ := hleft
    have hnone : Keyed.get? (second.sheet.write []) entry.1 = none := by
      rw [h.get?_write, if_neg fun hboth => hboth.2 hsnapshots, Keyed.get?_eq_none (hname ▸ hfree)]
      rfl
    rw [hnone]
    simp [hname, hsnapshots]
  · next hreplaced =>
    rw [not_and] at hreplaced
    constructor
    · exact Or.inl
    · rintro (hfound | ⟨-, hname, hsnapshots⟩)
      · exact hfound
      · exact absurd hsnapshots (hreplaced hname)

/-- What they save. -/
theorem write_voiced :
    (voiced 8 (some [.long 8])).sheet.write [] =
      [("voices", [.long 8]), (frozenKey, [.symbol "voices"])] ∧
    (voiced 4 none).sheet.write [] = [("voices", [.long 4])] :=
  ⟨rfl, rfl⟩

/-- Four voices are saved over eight with a snapshot. The list that names it is left, but the eight are not. -/
theorem save_overwrites_voices :
    (frozenKey, [.symbol "voices"]) ∈
        (voiced 4 none).sheet.write ((voiced 8 (some [.long 8])).sheet.write []) ∧
      ("voices", [.long 8]) ∉
        (voiced 4 none).sheet.write ((voiced 8 (some [.long 8])).sheet.write []) := by
  obtain ⟨-, hfirst, hsecond⟩ := runAll_voiced
  have hfree : frozenKey ∉ Keyed.keys (voiced 4 none).sheet := by decide
  have hentries := save_overwrites hfirst hsecond (matches_voiced 8 4 _ _) hfree
  constructor
  · have hlisted : (frozenKey, [.symbol "voices"]) ∈ (voiced 8 (some [.long 8])).sheet.write [] := by
      simp [write_voiced.1]
    have hnone : ∀ saved ∈ (voiced 4 none).sheet.kept, saved.2.frozen? = none := by
      intro saved hsaved
      obtain rfl := List.mem_singleton.mp hsaved
      rfl
    exact (hentries _).mpr (Or.inr ⟨hlisted, rfl, hnone⟩)
  · intro hleft
    rcases (hentries _).mp hleft with halone | ⟨-, hname, -⟩
    · simp [write_voiced.2] at halone
    · exact absurd hname (by decide)

/-- So saving over an earlier save is not saving into an empty dico. -/
theorem not_forall_save_overwrites :
    ¬ ∀ (first second : Watch Unit) (steps₁ steps₂ : List (Step Unit)),
      runAll unmoved steps₁ {} = some first → runAll unmoved steps₂ {} = some second →
        first.sheet.Matches second.sheet → frozenKey ∉ Keyed.keys second.sheet →
          ∀ entry : String × List Atom, entry ∈ second.sheet.write (first.sheet.write []) ↔
            entry ∈ second.sheet.write [] := by
  intro hall
  obtain ⟨-, hfirst, hsecond⟩ := runAll_voiced
  have hsame := hall _ _ _ _ hfirst hsecond (matches_voiced 8 4 _ _) (by decide)
    (frozenKey, [.symbol "voices"])
  have hleft : (frozenKey, [Atom.symbol "voices"]) ∈
      (voiced 4 none).sheet.write ((voiced 8 (some [.long 8])).sheet.write []) := by
    have hover : (voiced 4 none).sheet.write [("voices", [.long 8]), (frozenKey, [.symbol "voices"])] =
        [("voices", [.long 4]), (frozenKey, [.symbol "voices"])] := rfl
    simp [write_voiced.1, hover]
  rw [write_voiced.2] at hsame
  simpa [frozenKey] using hsame.mp hleft

end Watch

end Patchbay
