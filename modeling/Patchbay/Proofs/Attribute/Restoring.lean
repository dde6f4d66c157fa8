import Patchbay.Proofs.Attribute.Saving

/-!
# Sheets restored

A sheet of the same outline as a saved one takes in what was saved, each attribute by itself, and then
saves the same. A value that counts as unchanged is not stored, so a zero may stay a zero of the other
sign, which equals it.
-/

namespace Patchbay

namespace Attribute

/-! ### Values that count as unchanged -/

/-- Numbers that count as unchanged are equal, from either side. -/
theorem sameList_of_unchangedList {xs ys : List Float} (hxs : ∀ x ∈ xs, x.isNaN = false)
    (h : Atom.unchangedList (xs.map (.double ·)) (ys.map (.double ·)) = true) :
    Atom.sameList (ys.map (.double ·)) (xs.map (.double ·)) = true := by
  induction xs generalizing ys with
  | nil =>
    cases ys with
    | nil => rfl
    | cons y ys => cases h
  | cons x xs ih =>
    cases ys with
    | nil => cases h
    | cons y ys =>
      simp only [List.map_cons, Atom.unchangedList, Atom.unchanged, Bool.and_eq_true,
        hxs x List.mem_cons_self, Bool.false_and, Bool.or_false] at h
      have hrest := ih (fun x hx => hxs x (List.mem_cons_of_mem _ hx)) h.2
      simp only [List.map_cons, Atom.sameList, Atom.same, hrest, Atom.isNumber, Atom.toDouble,
        BEq.symm h.1, Bool.and_self]

/-- Numbers equal themselves. -/
theorem sameList_self {xs : List Float} (hxs : ∀ x ∈ xs, x.isNaN = false) :
    Atom.sameList (xs.map (.double ·)) (xs.map (.double ·)) = true := by
  refine Atom.sameList_of_forall₂ ?_
  rw [List.forall₂_same]
  intro atom hatom
  obtain ⟨x, hx, rfl⟩ := List.mem_map.mp hatom
  simp only [Atom.same, Atom.isNumber, Atom.toDouble, Double.beq_self (hxs x hx), Bool.and_self]

/-- A settled value equals itself. -/
theorem Settled.same_self {attr : Attribute} {value : List Atom} (h : attr.Settled value) :
    Atom.sameList value value = true := by
  cases h with
  | truth hkind value => simp [Atom.sameList, Atom.same]
  | numbers hkind xs hlength hbound => exact sameList_self fun x hx => (hbound x hx).1

/-- A settled value that counts as unchanged equals the one that is there. -/
theorem Settled.same_of_unchanged {attr : Attribute} {value current : List Atom}
    (h : attr.Settled value) (hcurrent : attr.Settled current)
    (hunchanged : Atom.unchangedList value current = true) :
    Atom.sameList current value = true := by
  cases h with
  | truth hkind value =>
    cases hcurrent with
    | truth hkind current =>
      have heq : value = current := by
        cases value <;> cases current <;> first | rfl | cases hunchanged
      rw [heq]
      exact (Settled.truth hkind current).same_self
    | numbers hnumeric =>
      rw [hkind] at hnumeric
      cases hnumeric
  | numbers hnumeric xs hlength hbound =>
    cases hcurrent with
    | truth hkind current =>
      rw [hkind] at hnumeric
      cases hnumeric
    | numbers hkind ys => exact sameList_of_unchangedList (fun x hx => (hbound x hx).1) hunchanged

/-! ### One attribute restored -/

/-- The attribute after it was restored from a dico that has its name. -/
def restored (dico : Dico) (attr : Attribute) : Attribute :=
  let stored := attr.accept (dico.get attr.name)
  if (Sheet.frozenNames dico).contains attr.name then stored.freeze true else stored

/-- Restoring leaves the outline as it is. -/
theorem outline_restored (dico : Dico) (attr : Attribute) :
    (attr.restored dico).outline = attr.outline := by
  unfold restored
  dsimp only
  split
  · exact outline_accept attr _
  · exact outline_accept attr _

/-- The attribute after its sheet was restored from a dico. -/
def renewed (dico : Dico) (all : Bool) (attr : Attribute) : Attribute :=
  if (all || !attr.flags.unsaved) && dico.has attr.name then attr.restored dico else attr

/-- An attribute without a snapshot that takes in what was saved of another of the same outline saves
the same, and has a snapshot if the other has. -/
theorem Sound.restored {attr saved : Attribute} (h : attr.Sound) (hsaved : saved.Sound)
    (houtline : attr.outline = saved.outline) (hfresh : attr.frozen? = none) {dico : Dico}
    (hback : ∀ atom ∈ saved.record, atom.readsBack = true)
    (hget : dico.get attr.name = saved.record.map Notation.reread)
    (hfrozen : (Sheet.frozenNames dico).contains attr.name = saved.frozen?.isSome) :
    (attr.restored dico).Sound ∧
      Atom.sameList (attr.restored dico).record saved.record = true ∧
      (attr.restored dico).frozen?.isSome = saved.frozen?.isSome := by
  have hrecord : attr.Settled saved.record := hsaved.record.congr houtline
  have hconform := h.plain.conform_reread hrecord hback
  have hstored : (attr.accept (dico.get attr.name)).Sound ∧
      (attr.accept (dico.get attr.name)).frozen? = none ∧
      Atom.sameList (attr.accept (dico.get attr.name)).value saved.record = true := by
    rw [hget, Attribute.accept, hconform]
    dsimp only
    split
    · next hunchanged => exact ⟨h, hfresh, hrecord.same_of_unchanged h.value hunchanged⟩
    · refine ⟨⟨h.plain.congr rfl, hrecord.congr rfl, h.default.congr rfl, ?_⟩, hfresh,
        hrecord.same_self⟩
      exact fun snapshot hsnapshot => (h.frozen snapshot hsnapshot).congr rfl
  obtain ⟨hsound, hnone, hsame⟩ := hstored
  rw [Attribute.restored, hfrozen]
  cases hsome : saved.frozen?.isSome with
  | true => exact ⟨hsound.freeze true, hsame, rfl⟩
  | false =>
    refine ⟨hsound, ?_, by simp only [Bool.false_eq_true, if_false, hnone, Option.isSome_none]⟩
    simpa only [Bool.false_eq_true, if_false, Attribute.record, hnone, Option.getD_none] using hsame

end Attribute

namespace Sheet

/-- A sheet is restored attribute by attribute. -/
theorem restore_eq_map {sheet : Sheet} (hnames : ∀ entry ∈ sheet, entry.2.name = entry.1)
    (hnodup : (Keyed.keys sheet).Nodup) (dico : Dico) (all : Bool) :
    sheet.restore dico all = sheet.map fun entry => (entry.1, entry.2.renewed dico all) := by
  -- Each attribute is asked for by its name, so the fold over some names is one over all of them.
  let asked (name : String) : Bool :=
    (Keyed.get? sheet name).any fun attr => (all || !attr.flags.unsaved) && dico.has name
  have hasked : ∀ entry ∈ sheet,
      asked entry.1 = ((all || !entry.2.flags.unsaved) && dico.has entry.2.name) := by
    intro entry hentry
    simp only [asked, Keyed.get?_of_mem hnodup hentry, Option.any_some, hnames entry hentry]
  have hrestored : sheet.restored dico all = (Keyed.keys sheet).filter asked := by
    rw [Sheet.restored, Keyed.keys, List.filter_map, List.filter_map, List.map_map]
    have hfilter : sheet.filter ((fun attr : Attribute =>
        (all || !attr.flags.unsaved) && dico.has attr.name) ∘ Prod.snd) =
          sheet.filter (asked ∘ Prod.fst) :=
      List.filter_congr fun entry hentry => (hasked entry hentry).symm
    rw [hfilter]
    exact List.map_congr_left fun entry hentry => hnames entry (List.mem_of_mem_filter hentry)
  let change (name : String) (attr : Attribute) : Attribute :=
    let stored := attr.accept (dico.get name)
    if (frozenNames dico).contains name then stored.freeze true else stored
  have hstep : ∀ (done : Sheet) (name : String),
      (if asked name then
        let stored := (done.store? name (dico.get name) true).getD done
        if (frozenNames dico).contains name then stored.freeze name true else stored
      else done) = Keyed.modify done name (if asked name then change name else id) := by
    intro done name
    cases asked name with
    | false => exact (Keyed.modify_eq_self fun _ _ => rfl).symm
    | true =>
      simp only [if_true, getD_store?, freeze_eq_modify, Keyed.modify_modify, change]
      split <;> rfl
  rw [Sheet.restore, hrestored, List.foldl_filter]
  simp only [hstep]
  rw [Keyed.foldl_modify hnodup]
  refine List.map_congr_left fun entry hentry => ?_
  rw [hasked entry hentry, Attribute.renewed]
  split
  · simp only [change, Attribute.restored, hnames entry hentry]
  · rfl

/-- It is restored as a whole from a dico that has all its names. -/
theorem Sound.restore {sheet : Sheet} (h : sheet.Sound) {dico : Dico}
    (hhas : ∀ entry ∈ sheet, dico.has entry.1 = true) :
    sheet.restore dico true = sheet.map fun entry => (entry.1, entry.2.restored dico) := by
  rw [restore_eq_map h.names h.nodup]
  refine List.map_congr_left fun entry hentry => ?_
  rw [Attribute.renewed, h.names entry hentry, hhas entry hentry]
  rfl

/-- Attributes have the same name, are saved alike and are both frozen or not. -/
def Alike (a b : String × Attribute) : Prop :=
  a.1 = b.1 ∧ Atom.sameList a.2.record b.2.record = true ∧ a.2.frozen?.isSome = b.2.frozen?.isSome

section Entries

variable {sheet : Sheet} (header : Dico) {dico : Dico}

/-- Each attribute that was saved is found under its name. -/
theorem get?_entries (h : (Keyed.keys header ++ frozenKey :: Keyed.keys sheet).Nodup)
    {entry : String × Attribute} (hentry : entry ∈ sheet) :
    Keyed.get? (header ++ sheet.entries) entry.1 = some entry.2.record :=
  Keyed.get?_of_mem (nodup_keys_entries header h) (List.mem_append_right _ (mem_entries hentry))

/-- The names of the frozen attributes are found under their key. -/
theorem get_entries_frozenKey (h : (Keyed.keys header ++ frozenKey :: Keyed.keys sheet).Nodup) :
    Dico.get (header ++ sheet.entries) frozenKey = sheet.snapshots := by
  rw [Dico.get]
  by_cases hnone : sheet.snapshots.isEmpty = true
  · have hkeys : frozenKey ∉ Keyed.keys (header ++ sheet.entries) := by
      obtain ⟨-, hsheet, hapart⟩ := List.nodup_append.mp h
      simp only [Keyed.keys, entries, hnone, if_true, List.append_nil, List.map_append,
        List.map_map, List.mem_append, not_or]
      exact ⟨fun hmem => hapart _ hmem _ List.mem_cons_self rfl, (List.nodup_cons.mp hsheet).1⟩
    rw [Keyed.get?_eq_none hkeys, List.isEmpty_iff.mp hnone]
    rfl
  · have hmem : (frozenKey, sheet.snapshots) ∈ header ++ sheet.entries := by
      simp [entries, hnone]
    rw [Keyed.get?_of_mem (nodup_keys_entries header h) hmem, Option.getD_some]

/-- Their names come back from a text as they are. -/
theorem map_reread_snapshots (sheet : Sheet) :
    sheet.snapshots.map Notation.reread = sheet.snapshots := by
  rw [snapshots, List.map_map]
  rfl

/-- The attributes that a dico lists as frozen. -/
theorem frozenNames_eq (hget : dico.get frozenKey = sheet.snapshots) :
    frozenNames dico = (sheet.filter fun entry => entry.2.frozen?.isSome).map Prod.fst := by
  have hsymbols : sheet.snapshots.filter Atom.isSymbol = sheet.snapshots := by
    refine List.filter_eq_self.mpr fun atom hatom => ?_
    obtain ⟨entry, -, rfl⟩ := List.mem_map.mp hatom
    rfl
  rw [frozenNames, hget, hsymbols, snapshots, List.map_map]
  rfl

/-- An attribute is among them if it has a snapshot. -/
theorem contains_frozenNames (hnodup : (Keyed.keys sheet).Nodup)
    (hget : dico.get frozenKey = sheet.snapshots) {entry : String × Attribute}
    (hentry : entry ∈ sheet) : (frozenNames dico).contains entry.1 = entry.2.frozen?.isSome := by
  rw [frozenNames_eq hget, Bool.eq_iff_iff, List.contains_iff_mem, List.mem_map]
  constructor
  · rintro ⟨other, hother, heq⟩
    obtain ⟨hmem, hsome⟩ := List.mem_filter.mp hother
    obtain rfl := List.inj_on_of_nodup_map hnodup hmem hentry heq
    exact hsome
  · exact fun hsome => ⟨entry, List.mem_filter.mpr ⟨hentry, hsome⟩, rfl⟩

end Entries

section Saved

variable {sheet : Sheet} (h : sheet.Sound) {header : Dico}
  (hheader : Keyed.keys header = ["id", "text"])

include h hheader

/-- Each attribute of a sound sheet is found in what is read of it. -/
theorem Sound.get_reread {entry : String × Attribute} (hentry : entry ∈ sheet) :
    Keyed.get? (Notation.rereadEntries (header ++ sheet.entries)) entry.1 =
      some (entry.2.record.map Notation.reread) := by
  rw [Notation.get?_rereadEntries, get?_entries header (hheader ▸ h.distinct) hentry, Option.map_some,
    Notation.rereadItems_eq_map]

/-- It is listed there as frozen if it has a snapshot. -/
theorem Sound.contains_frozenNames {entry : String × Attribute} (hentry : entry ∈ sheet) :
    (frozenNames (Notation.rereadEntries (header ++ sheet.entries))).contains entry.1 =
      entry.2.frozen?.isSome := by
  refine Sheet.contains_frozenNames h.nodup ?_ hentry
  rw [Notation.get_rereadEntries, get_entries_frozenKey header (hheader ▸ h.distinct), map_reread_snapshots]

/-- A sheet of the same outline finds all its names. -/
theorem Sound.has_reread {base : Sheet} (houtline : base.outline = sheet.outline) :
    ∀ entry ∈ base,
      Keyed.has (Notation.rereadEntries (header ++ sheet.entries)) entry.1 = true := by
  intro entry hmem
  have hkeys : entry.1 ∈ Keyed.keys sheet := by
    rw [← keys_eq_of_outline houtline]
    exact List.mem_map_of_mem hmem
  obtain ⟨saved, hsaved, hname⟩ := List.mem_map.mp hkeys
  rw [← hname, Keyed.has, h.get_reread hheader hsaved]
  rfl

/-- The attributes of a sheet of the same outline, which are without snapshots, take in what was saved
of their partners. -/
theorem Sound.forall₂_restored {base : Sheet} (hbase : base.Sound)
    (houtline : base.outline = sheet.outline) (hfresh : ∀ entry ∈ base, entry.2.frozen? = none)
    (hback : ∀ entry ∈ sheet, ∀ atom ∈ entry.2.record, atom.readsBack = true) :
    List.Forall₂ (fun a b : String × Attribute => a.2.Sound ∧ Alike a b)
      (base.map fun entry =>
        (entry.1, entry.2.restored (Notation.rereadEntries (header ++ sheet.entries)))) sheet := by
  obtain ⟨hlength, hpairs⟩ : base.length = sheet.length ∧ ∀ {a b}, (a, b) ∈ base.zip sheet →
      (a.1, a.2.outline) = (b.1, b.2.outline) := by
    have heq : List.Forall₂ (· = ·) base.outline sheet.outline := by
      rw [List.forall₂_eq_eq_eq, houtline]
    rw [outline, outline, List.forall₂_map_left_iff, List.forall₂_map_right_iff] at heq
    exact List.forall₂_iff_zip.mp heq
  rw [List.forall₂_map_left_iff]
  refine List.forall₂_iff_zip.mpr ⟨hlength, fun {a b} hmem => ?_⟩
  obtain ⟨ha, hb⟩ := List.of_mem_zip hmem
  obtain ⟨hkey, hkind⟩ := Prod.mk.inj (hpairs hmem)
  have hname : a.2.name = b.1 := (hbase.names a ha).trans hkey
  have hget : Dico.get (Notation.rereadEntries (header ++ sheet.entries)) a.2.name =
      b.2.record.map Notation.reread := by
    rw [Dico.get, hname, h.get_reread hheader hb, Option.getD_some]
  have hfrozen := hname.symm ▸ h.contains_frozenNames hheader hb
  obtain ⟨hsound, hrecord, hsnapshot⟩ := (hbase.attributes a ha).restored (h.attributes b hb) hkind
    (hfresh a ha) (hback b hb) hget hfrozen
  exact ⟨hsound, hkey, hrecord, hsnapshot⟩

end Saved

/-- The names of the frozen attributes are the same if the attributes are alike. -/
theorem snapshots_congr {sheet other : Sheet} (h : List.Forall₂ Alike sheet other) :
    sheet.snapshots = other.snapshots := by
  induction h with
  | nil => rfl
  | @cons a b sheet other hentry _ ih =>
    simp only [snapshots, List.filter_cons, hentry.2.2] at ih ⊢
    split
    · rw [List.map_cons, List.map_cons, ih, hentry.1]
    · exact ih

/-- Sheets of which the attributes are alike are saved alike. -/
theorem Sound.same_write {sheet other : Sheet} (h : sheet.Sound) (hother : other.Sound)
    (halike : List.Forall₂ Alike sheet other) {header : Dico}
    (hheader : Keyed.keys header = ["id", "text"])
    (hself : ∀ entry ∈ header, Atom.sameList entry.2 entry.2 = true) :
    Dico.same (sheet.write header) (other.write header) = true := by
  have hnames : Atom.sameList other.snapshots other.snapshots = true := by
    refine Atom.sameList_of_forall₂ ?_
    rw [List.forall₂_same]
    intro atom hatom
    obtain ⟨frozen, -, rfl⟩ := List.mem_map.mp hatom
    simp [Atom.same]
  rw [h.write hheader, hother.write hheader]
  refine Dico.same_of_forall₂ (hother.nodup_keys hheader)
    (List.rel_append ?_ (List.rel_append ?_ ?_))
  · rw [List.forall₂_same]
    exact fun entry hmem => ⟨rfl, hself entry hmem⟩
  · rw [List.forall₂_map_left_iff, List.forall₂_map_right_iff]
    exact halike.imp fun _ _ hpair => ⟨hpair.1, hpair.2.1⟩
  · rw [snapshots_congr halike]
    split
    · exact .nil
    · exact .cons ⟨rfl, hnames⟩ .nil

/-- A sheet without snapshots that is restored from a saved sheet of its outline has attributes like
it. -/
theorem Sound.restore_write {sheet base : Sheet} (h : sheet.Sound) (hbase : base.Sound)
    (houtline : base.outline = sheet.outline) (hfresh : ∀ entry ∈ base, entry.2.frozen? = none)
    (hback : ∀ entry ∈ sheet, ∀ atom ∈ entry.2.record, atom.readsBack = true) {header : Dico}
    (hheader : Keyed.keys header = ["id", "text"]) :
    Sheet.Sound (base.restore (Notation.rereadEntries (sheet.write header)) true) ∧
      List.Forall₂ Alike (base.restore (Notation.rereadEntries (sheet.write header)) true)
        sheet := by
  obtain ⟨hattributes, halike⟩ := (List.forall₂_and_left _ _).mp
    (h.forall₂_restored hheader hbase houtline hfresh hback)
  rw [h.write hheader, hbase.restore (h.has_reread hheader houtline)]
  refine ⟨hbase.of_outline ?_ hattributes, halike⟩
  rw [outline, List.map_map]
  exact List.map_congr_left fun entry _ =>
    congrArg (Prod.mk entry.1) (entry.2.outline_restored _)

end Sheet

end Patchbay
