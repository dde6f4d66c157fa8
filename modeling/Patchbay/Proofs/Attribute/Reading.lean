import Patchbay.Proofs.Atom.Unchanged
import Patchbay.Proofs.Attribute.Restoring
import Patchbay.Proofs.Attribute.Watching

/-!
# Sheets read from what was written

A sheet that is declared afresh reads what another one of the same declarations has written. Each
attribute that is saved then holds what was saved of its partner, and has a snapshot of it if its partner
has one. The others hold their defaults.

A value that was written is one that its attribute takes in as it is, and so does the partner, since
they have the same limits. In a text a double may turn into an integer of the same value, which matters to
lists alone; and a value that counts as unchanged against what is held already is not stored at all.
-/

namespace Patchbay

namespace Attribute

variable {attr saved : Attribute} {found value : List Atom}

/-- An attribute makes of the atoms found under its name what counts as the value. -/
def Regains (attr : Attribute) (found value : List Atom) : Prop :=
  ∃ taken, attr.conform found = some taken ∧
    ∀ held, Atom.unchangedList taken held = true → Atom.unchangedList value held = true

/-- A value that stays is regained from itself. -/
theorem Stays.regains_self (h : attr.Stays value) : attr.Regains value value :=
  ⟨value, h.conform, fun _ hheld => hheld⟩

/-- It is regained from what is read of its text, if the text keeps it. -/
theorem Stays.regains_reread (h : attr.Stays value)
    (hkeeps : ∀ atom ∈ value, atom.every Notation.keeps = true) :
    attr.Regains (value.map Notation.reread) value := by
  have hsame : value.map Notation.reread = value → attr.Regains (value.map Notation.reread) value := by
    intro heq
    rw [heq]
    exact h.regains_self
  obtain ⟨hshape, hconform⟩ := h
  generalize hkind : attr.kind = kind at hshape
  cases hshape with
  | truth | whole | word | item => exact hsame rfl
  | list =>
    refine ⟨value.map Notation.reread, by simp only [Attribute.conform, hkind], fun held hheld => ?_⟩
    exact Atom.unchangedList_of_sameList (Atom.sameList_of_unchangedList_reread hkeeps hheld)
  | numbers hnumeric xs hlength =>
    have hback : ∀ x ∈ xs, Numeral.ReadsBack x := by
      intro x hx
      have hatom : Notation.keeps (.double x) = true :=
        Atom.of_every (hkeeps _ (List.mem_map_of_mem hx))
      rw [Notation.keeps, Bool.and_eq_true, decide_eq_true_eq] at hatom
      exact hatom.2
    have hnumbers : attr.conform (xs.map fun x => Notation.reread (.double x)) =
        some ((attr.fit xs).map (.double ·)) :=
      conform_numbers (hkind ▸ hnumeric) (hkind ▸ hlength) fun x hx => number_reread (hback x hx)
    have hdoubles : attr.conform (xs.map (.double ·)) = some ((attr.fit xs).map (.double ·)) :=
      conform_numbers (hkind ▸ hnumeric) (hkind ▸ hlength) fun _ _ => ⟨rfl, rfl⟩
    refine ⟨_, ?_, fun _ hheld => hheld⟩
    rw [List.map_map]
    exact hnumbers.trans (hdoubles.symm.trans hconform)

/-- What is saved of an orderly attribute stays. -/
theorem Orderly.record (h : attr.Orderly) (hsome : attr.kind ≠ .enum []) : attr.Stays attr.record := by
  unfold Attribute.record
  cases hsnapshot : attr.frozen? with
  | none => exact h.value hsome
  | some snapshot => exact h.frozen hsome snapshot hsnapshot

/-- The outline tells which values stay. -/
theorem scope_of_outline (h : attr.outline = saved.outline) : attr.scope = saved.scope := by
  simp only [outline, Outline.mk.injEq] at h
  simp only [scope, h]

/-- An attribute has what was saved of another: its value, and if it has a snapshot, that too. -/
structure Recovers (attr saved : Attribute) : Prop where
  value : Atom.unchangedList saved.record attr.value = true
  frozen : Option.Rel (fun snapshot other => Atom.unchangedList snapshot other = true)
    saved.frozen? attr.frozen?

/-- What an attribute regains counts as unchanged against what it holds when it has accepted the atoms. -/
theorem Regains.accept (h : attr.Regains found value) :
    Atom.unchangedList value (attr.accept found).value = true := by
  obtain ⟨taken, htaken, hequal⟩ := h
  rw [Attribute.accept, htaken]
  dsimp only
  split
  · next hunchanged => exact hequal _ hunchanged
  · exact hequal taken (Atom.unchangedList_self taken)

/-- Accepting atoms leaves the snapshot as it is. -/
theorem frozen_accept (attr : Attribute) (atoms : List Atom) : (attr.accept atoms).frozen? = attr.frozen? := by
  unfold accept
  split
  · split <;> rfl
  · rfl

/-- An attribute that is restored holds what it accepts, and has a snapshot of that if the dico lists it.
Otherwise it keeps the snapshot that it has. -/
theorem value_restored (dico : Dico) (attr : Attribute) :
    (attr.restored dico).value = (attr.accept (dico.get attr.name)).value ∧
      (attr.restored dico).frozen? =
        if (Sheet.frozenNames dico).contains attr.name then some (attr.restored dico).value
        else attr.frozen? := by
  unfold restored
  dsimp only
  split
  · exact ⟨rfl, rfl⟩
  · exact ⟨rfl, attr.frozen_accept _⟩

/-- An attribute without a snapshot that is restored from a dico recovers what was saved of another, if
it regains that from the dico. -/
theorem recovers_restored {dico : Dico} (hfresh : attr.frozen? = none)
    (hregains : attr.Regains (dico.get attr.name) saved.record)
    (hfrozen : (Sheet.frozenNames dico).contains attr.name = saved.frozen?.isSome) :
    (attr.restored dico).Recovers saved := by
  obtain ⟨hvalue, hsnapshot⟩ := attr.value_restored dico
  have hrecord := hregains.accept
  rw [← hvalue] at hrecord
  rw [hfrozen, hfresh] at hsnapshot
  refine ⟨hrecord, ?_⟩
  rw [hsnapshot]
  cases hsaved : saved.frozen? with
  | none => exact .none
  | some snapshot =>
    rw [Attribute.record, hsaved, Option.getD_some] at hrecord
    exact .some hrecord

end Attribute

namespace Sheet

/-- Each attribute stands under its name, and none has the name of the list of frozen attributes. -/
structure Named (sheet : Sheet) : Prop where
  names : ∀ entry ∈ sheet, entry.2.name = entry.1
  distinct : (frozenKey :: Keyed.keys sheet).Nodup

/-- What is found in a dico is what a sheet writes, atom by atom after a conversion that leaves symbols
alone and loses nothing that the sheet saves. -/
structure Carries (dico : Dico) (sheet : Sheet) (convert : Atom → Atom) : Prop where
  found : ∀ key, Keyed.get? dico key = (Keyed.get? (sheet.write []) key).map (List.map convert)
  symbols : ∀ text, convert (.symbol text) = .symbol text
  regains : ∀ entry ∈ sheet.kept, ∀ attr : Attribute, attr.Stays entry.2.record →
    attr.Regains (entry.2.record.map convert) entry.2.record

variable {sheet base : Sheet}

/-- The part that is saved is named, too. -/
theorem Named.kept (h : sheet.Named) : sheet.kept.Named :=
  ⟨fun entry hentry => h.names entry (List.mem_of_mem_filter hentry),
    h.distinct.sublist ((List.Sublist.map _ List.filter_sublist).cons_cons frozenKey)⟩

/-- Names are told by the outline. -/
theorem Named.of_outline (h : base.Named) (houtline : sheet.outline = base.outline) : sheet.Named :=
  ⟨names_of_outline houtline h.names, by rw [keys_eq_of_outline houtline]; exact h.distinct⟩

/-- Two sheets have the same attributes, declared alike and with the same flags, in whatever order. -/
def Matches (sheet other : Sheet) : Prop :=
  ∀ name, (Keyed.get? sheet name).map Attribute.outline = (Keyed.get? other name).map Attribute.outline

/-- Sheets of one outline do. -/
theorem matches_of_outline {other : Sheet} (houtline : sheet.outline = other.outline) : sheet.Matches other := by
  intro name
  rw [← Keyed.get?_map, ← Keyed.get?_map]
  exact congrArg (Keyed.get? · name) houtline

section Matches

variable {other : Sheet} {name : String}

/-- That goes both ways. -/
theorem Matches.symm (h : sheet.Matches other) : other.Matches sheet := fun name => (h name).symm

/-- It goes on from one to the next. -/
theorem Matches.trans {third : Sheet} (h : sheet.Matches other) (hthird : other.Matches third) :
    sheet.Matches third := fun name => (h name).trans (hthird name)

/-- Each attribute has its counterpart. -/
theorem Matches.exists_counterpart (h : sheet.Matches other) {attr : Attribute}
    (hattr : Keyed.get? sheet name = some attr) :
    ∃ found, Keyed.get? other name = some found ∧ found.outline = attr.outline := by
  have hfound := h name
  rw [hattr, Option.map_some] at hfound
  exact Option.map_eq_some_iff.mp hfound.symm

/-- What is not there in one is not there in the other. -/
theorem Matches.get?_eq_none (h : sheet.Matches other) (hnone : Keyed.get? other name = none) :
    Keyed.get? sheet name = none := by
  have hfound := h name
  rw [hnone, Option.map_none] at hfound
  exact Option.map_eq_none_iff.mp hfound

/-- A name that is not there in one is not there in the other. -/
theorem Matches.notMem_keys (h : sheet.Matches other) (hnone : name ∉ Keyed.keys other) :
    name ∉ Keyed.keys sheet := Keyed.notMem_keys (h.get?_eq_none (Keyed.get?_eq_none hnone))

end Matches

/-- A named sheet writes the part that is saved. -/
theorem Named.write (h : sheet.Named) : sheet.write [] = sheet.kept.entries := by
  have hnodup : (Keyed.keys ([] ++ sheet.kept.entries)).Nodup := nodup_keys_entries [] h.kept.distinct
  exact write_eq h.names hnodup

/-- A dico carries what is written into it. -/
theorem carries_write (sheet : Sheet) : Carries (sheet.write []) sheet id :=
  ⟨fun key => by rw [List.map_id_fun, Option.map_id_fun, id], fun _ => rfl,
    fun entry _ attr hstays => by rw [List.map_id]; exact hstays.regains_self⟩

/-- So does a text that keeps it. -/
theorem Named.carries_read_text (h : sheet.Named)
    (hkeeps : ∀ entry ∈ sheet.write [], ∀ atom ∈ entry.2, atom.every Notation.keeps = true) :
    Carries (Notation.read (Notation.text (sheet.write []))) sheet Notation.reread := by
  have hnodup : (Keyed.keys (sheet.write [])).Nodup := by
    rw [h.write]
    exact nodup_keys_entries [] h.kept.distinct
  refine ⟨fun key => ?_, fun _ => rfl, fun entry hentry attr hstays => hstays.regains_reread ?_⟩
  · have hall : (Atom.dico (sheet.write [])).every Notation.keeps = true := by
      rw [Atom.every_dico, Notation.keeps, decide_eq_true_eq]
      exact ⟨hnodup, hkeeps⟩
    rw [Notation.read_text hall, Notation.get?_rereadEntries]
    congr 1
    funext items
    exact Notation.rereadItems_eq_map items
  · refine hkeeps (entry.1, entry.2.record) ?_
    rw [h.write]
    exact mem_entries hentry

variable {dico : Dico} {convert : Atom → Atom}

/-- A dico that carries a sheet lists the attributes that were frozen. -/
theorem Carries.get_frozenKey (h : Carries dico sheet convert) (hnamed : sheet.Named) :
    dico.get frozenKey = sheet.kept.snapshots := by
  have hwritten : Dico.get (sheet.write []) frozenKey = sheet.kept.snapshots := by
    rw [hnamed.write]
    exact get_entries_frozenKey [] hnamed.kept.distinct
  have hsymbols : sheet.kept.snapshots.map convert = sheet.kept.snapshots := by
    rw [snapshots, List.map_map]
    exact List.map_congr_left fun entry _ => h.symbols entry.1
  rw [Dico.get, h.found]
  rw [Dico.get] at hwritten
  cases hget : Keyed.get? (sheet.write []) frozenKey with
  | none =>
    rw [hget] at hwritten
    exact hwritten
  | some items =>
    rw [hget, Option.getD_some] at hwritten
    rw [Option.map_some, Option.getD_some, hwritten, hsymbols]

/-- A sheet declared like another recovers from a dico what the other has saved. An attribute that is
not saved holds its default. -/
theorem Carries.recovers (h : Carries dico sheet convert) (horderly : sheet.Orderly)
    (hbase : base.Named) (houtline : sheet.outline = base.outline)
    (hitems : ∀ entry ∈ base, entry.2.kind ≠ .enum [])
    (hfresh : ∀ entry ∈ base, entry.2.value = entry.2.default ∧ entry.2.frozen? = none)
    {name : String} {saved : Attribute} (hsaved : Keyed.get? sheet name = some saved) :
    ∃ attr, Keyed.get? (base.restore dico false) name = some attr ∧
      (saved.flags.unsaved = true → attr.value = attr.default ∧ attr.frozen? = none) ∧
      (saved.flags.unsaved = false → attr.Recovers saved) := by
  have hnamed := hbase.of_outline houtline
  obtain ⟨attr, hattr, hsame⟩ := (matches_of_outline houtline).exists_counterpart hsaved
  have hmem := Keyed.mem_of_get? hattr
  have hname : attr.name = name := hbase.names _ hmem
  have hflags : attr.flags = saved.flags := congrArg Outline.flags hsame
  have hkind : attr.kind = saved.kind := congrArg Outline.kind hsame
  refine ⟨attr.renewed dico false, ?_, fun hunsaved => ?_, fun hkept => ?_⟩
  · rw [restore_eq_map hbase.names (List.nodup_cons.mp hbase.distinct).2, Keyed.get?_map, hattr]
    rfl
  · rw [Attribute.renewed, hflags, hunsaved]
    exact hfresh _ hmem
  · have hentry : (name, saved) ∈ sheet.kept :=
      List.mem_filter.mpr ⟨Keyed.mem_of_get? hsaved, by rw [hkept]; rfl⟩
    have hwritten : Keyed.get? (sheet.write []) name = some saved.record := by
      rw [hnamed.write]
      exact get?_entries [] hnamed.kept.distinct hentry
    have hfound : Keyed.get? dico name = some (saved.record.map convert) := by
      rw [h.found, hwritten, Option.map_some]
    have hhas : dico.has attr.name = true := by rw [Keyed.has, hname, hfound]; rfl
    have hsome : saved.kind ≠ .enum [] := hkind ▸ hitems _ hmem
    have hstays : attr.Stays saved.record :=
      ((horderly _ (Keyed.mem_of_get? hsaved)).record hsome).congr (Attribute.scope_of_outline hsame)
    rw [Attribute.renewed, hflags, hkept, hhas]
    refine Attribute.recovers_restored (hfresh _ hmem).2 ?_ ?_
    · rw [Dico.get, hname, hfound]
      exact h.regains _ hentry attr hstays
    · rw [hname]
      exact contains_frozenNames (List.nodup_cons.mp hnamed.kept.distinct).2
        (h.get_frozenKey hnamed) hentry

/-! ### Declared sheets -/

/-- Declare some attributes, one after the other. -/
def declare (sheet : Sheet) (declarations : List Declaration) : Sheet :=
  declarations.foldl (fun sheet declaration => Sheet.add sheet declaration.declared) sheet

/-- The attributes of a sheet are as they were declared, under their distinct names. -/
structure Declared (declarations : List Declaration) (sheet : Sheet) : Prop where
  entries : ∀ entry ∈ sheet, ∃ declaration ∈ declarations,
    entry.1 = declaration.name ∧ entry.2 = declaration.declared
  distinct : (Keyed.keys sheet).Nodup

/-- They stay so when more are declared. -/
theorem Declared.declare {declarations : List Declaration} (h : Declared declarations sheet)
    {more : List Declaration} (hmore : more ⊆ declarations) :
    Declared declarations (sheet.declare more) := by
  induction more generalizing sheet with
  | nil => exact h
  | cons declaration more ih =>
    obtain ⟨hmem, hrest⟩ := List.cons_subset.mp hmore
    refine ih ⟨fun entry hentry => ?_, Keyed.nodup_set h.distinct _ _⟩ hrest
    rcases Keyed.mem_set hentry with hbefore | rfl
    · exact h.entries entry hbefore
    · exact ⟨declaration, hmem, declaration.fresh_declared.1.name, rfl⟩

/-- They are so when they are declared from the start. -/
theorem declared_declare (declarations : List Declaration) :
    Declared declarations (declare [] declarations) := by
  have hempty : Declared declarations [] := ⟨by simp, by simp [Keyed.keys]⟩
  exact hempty.declare (List.Subset.refl _)

end Sheet

namespace Watch

variable {L : Type} [DecidableEq L]

/-- Decide whether a step does nothing but store values, keep snapshots or forget them, and bind
listeners or unbind them. -/
def Step.stores : Step L → Bool
  | .set _ _ | .reset _ | .resetAll | .freeze _ _ | .bind _ _ | .unbind _ => true
  | _ => false

/-- Such a step leaves the outline as it is. -/
theorem Step.outline {react : Reactions L} {step : Step L} (hstep : step.stores = true)
    {watch later : Watch L} (hrun : step.run react watch = some later) :
    later.sheet.outline = watch.sheet.outline := by
  have hkept : ∀ {sheet next : Sheet} {name : String} {atoms : List Atom} {force : Bool},
      sheet.outline = watch.sheet.outline → sheet.store? name atoms force = some next →
        next.outline = watch.sheet.outline := by
    intro sheet next name atoms force h hstore
    rw [Sheet.store?_eq_some hstore]
    exact (Sheet.outline_modify sheet name fun attr => attr.outline_accept atoms).trans h
  refine Step.keeps (P := fun sheet => sheet.outline = watch.sheet.outline) hkept ?_ ?_ ?_ ?_ rfl hrun
  · rintro declaration rfl
    cases hstep
  · rintro name rfl
    cases hstep
  · rintro name flags on rfl
    cases hstep
  · intro sheet name on h
    have hsame : ∀ attr : Attribute, (attr.freeze on).outline = attr.outline := fun _ => rfl
    exact (Sheet.outline_modify sheet name hsame).trans h

/-- Attributes that are declared one after the other make the declared sheet. -/
theorem runAll_add (react : Reactions L) (declarations : List Declaration) (steps : List (Step L)) :
    runAll react (declarations.map .add ++ steps) {} =
      runAll react steps { sheet := Sheet.declare [] declarations } := by
  have hadded : runAll react (declarations.map .add) {} =
      some { sheet := Sheet.declare [] declarations } := by
    have hbinds : ∀ step ∈ declarations.map (Step.add (L := L)), step.binds = false := by
      intro step hstep
      obtain ⟨declaration, -, rfl⟩ := List.mem_map.mp hstep
      rfl
    rw [show ({} : Watch L) = { sheet := [] } from rfl, runAll_alone hbinds, List.foldl_map]
    rfl
  rw [runAll, List.foldlM_append, ← runAll, hadded]
  rfl

/-- Whatever is stored in the attributes of a sheet, by request or by listeners in turn, and whichever
snapshots are kept: a sheet with the same declarations recovers it from what was written, directly or
through a text. Each attribute that is saved gets what was saved, and a snapshot if it had one, also if
it is closed to setting; each other one holds its default. -/
theorem restore_recovers (react : Reactions L) {declarations : List Declaration}
    (hnames : ∀ declaration ∈ declarations, declaration.name ≠ frozenKey)
    (hitems : ∀ declaration ∈ declarations, declaration.kind ≠ .enum []) {steps : List (Step L)}
    (hsteps : ∀ step ∈ steps, step.stores = true) {watch : Watch L}
    (hrun : runAll react (declarations.map .add ++ steps) {} = some watch) {dico : Dico}
    (hdico : dico = watch.sheet.write [] ∨
      dico = Notation.read (Notation.text (watch.sheet.write [])) ∧
        ∀ entry ∈ watch.sheet.write [], ∀ atom ∈ entry.2, atom.every Notation.keeps = true) :
    ∃ second : Watch L,
      runAll react (declarations.map .add ++ [.restore dico false]) {} = some second ∧
      ∀ name saved, Keyed.get? watch.sheet name = some saved →
        ∃ attr, Keyed.get? second.sheet name = some attr ∧
          (saved.flags.unsaved = true → attr.value = attr.default ∧ attr.frozen? = none) ∧
          (saved.flags.unsaved = false → attr.Recovers saved) := by
  have hdeclared := Sheet.declared_declare declarations
  have hbase : (Sheet.declare [] declarations).Named := by
    refine ⟨fun entry hentry => ?_, List.nodup_cons.mpr ⟨fun hmem => ?_, hdeclared.distinct⟩⟩
    · obtain ⟨declaration, -, hkey, hattr⟩ := hdeclared.entries entry hentry
      rw [hattr, hkey, declaration.fresh_declared.1.name]
    · obtain ⟨entry, hentry, heq⟩ := List.mem_map.mp hmem
      obtain ⟨declaration, hdeclaration, hkey, -⟩ := hdeclared.entries entry hentry
      exact hnames declaration hdeclaration (hkey.symm.trans heq)
  rw [runAll_add] at hrun
  have houtline : watch.sheet.outline = (Sheet.declare [] declarations).outline :=
    of_foldlM (P := fun later : Watch L =>
        later.sheet.outline = (Sheet.declare [] declarations).outline)
      (fun step hstep _ _ h hstepRun => (Step.outline (hsteps step hstep) hstepRun).trans h) rfl hrun
  have horderly : watch.sheet.Orderly := by
    refine of_foldlM (P := fun later : Watch L => later.sheet.Orderly)
      (fun step _ _ _ h hstepRun => Step.orderly h hstepRun) (fun entry hentry => ?_) hrun
    obtain ⟨declaration, -, -, hattr⟩ := hdeclared.entries entry hentry
    exact hattr ▸ declaration.fresh_declared.2
  have hcarries : ∃ convert, Sheet.Carries dico watch.sheet convert := by
    rcases hdico with rfl | ⟨rfl, hkeeps⟩
    · exact ⟨id, watch.sheet.carries_write⟩
    · exact ⟨Notation.reread, (hbase.of_outline houtline).carries_read_text hkeeps⟩
  obtain ⟨convert, hcarries⟩ := hcarries
  refine ⟨{ sheet := (Sheet.declare [] declarations).restore dico false }, ?_, fun name saved hsaved => ?_⟩
  · rw [runAll_add]
    exact runAll_alone (by simp [Step.binds]) _
  · refine hcarries.recovers horderly hbase houtline (fun entry hentry => ?_) (fun entry hentry => ?_)
      hsaved
    · obtain ⟨declaration, hdeclaration, -, hattr⟩ := hdeclared.entries entry hentry
      rw [hattr, declaration.fresh_declared.1.kind]
      exact hitems declaration hdeclaration
    · obtain ⟨declaration, -, -, hattr⟩ := hdeclared.entries entry hentry
      rw [hattr]
      exact ⟨declaration.fresh_declared.1.value, declaration.fresh_declared.1.frozen⟩

/-- A closed attribute, one that is not saved, and two that are. -/
def mixture : List Declaration :=
  [⟨"level", .double, trivial, [.double 0.75], [.range 0.0 0.5, .flags { disabled := true }]⟩,
    ⟨"notes", .symbol, trivial, [], [.flags { unsaved := true }]⟩,
    ⟨"steps", .long, trivial, [.long 4], [.min 2.5]⟩, ⟨"data", .list, trivial, [], []⟩]

/-- Two of them are frozen, and one of these changes afterwards. -/
def mixed : List (Step Unit) :=
  [.set "level" [.double 0.25], .freeze "level" true, .set "notes" [.symbol "x"],
    .set "steps" [.long 1], .freeze "steps" true, .set "steps" [.long 9],
    .set "data" [.double 1e16, .vector [.symbol "a b"]]]

/-- A sheet with the same declarations recovers them from the text. -/
theorem restore_recovers_mixture :
    ∃ second : Watch Unit,
      runAll (fun _ _ _ _ => []) (mixture.map .add ++ [.restore (Notation.read (Notation.text
        ((mixed.foldl Step.alone (Sheet.declare [] mixture)).write []))) false]) {} = some second ∧
      ∀ name saved, Keyed.get? (mixed.foldl Step.alone (Sheet.declare [] mixture)) name = some saved →
        ∃ attr, Keyed.get? second.sheet name = some attr ∧
          (saved.flags.unsaved = true → attr.value = attr.default ∧ attr.frozen? = none) ∧
          (saved.flags.unsaved = false → attr.Recovers saved) := by
  have hrun : runAll (fun _ _ _ _ => []) (mixture.map .add ++ mixed) {} =
      some { sheet := mixed.foldl Step.alone (Sheet.declare [] mixture) } := by
    rw [runAll_add]
    exact runAll_alone (by decide) _
  exact restore_recovers (fun _ _ _ _ => []) (by decide) (by decide) (by decide) hrun
    (Or.inr ⟨rfl, by decide +kernel⟩)

end Watch

end Patchbay
