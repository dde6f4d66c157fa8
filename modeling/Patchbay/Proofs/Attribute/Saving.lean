import Patchbay.Proofs.Atom.Parts
import Patchbay.Proofs.Attribute.Settled

/-!
# Sheets kept sound and saved

What is done to a sheet, by storing values, going back to defaults or keeping snapshots, leaves the
outline of its attributes as it is and every value settled. Such a sheet is saved attribute by attribute
under distinct keys, and its text keeps all of it.
-/

namespace Patchbay

/-- What stays of an attribute whatever is stored in it. -/
structure Outline where
  name : String
  kind : Kind
  least? : Option Float
  greatest? : Option Float
  ratio? : Option Float
  flags : Flags

namespace Attribute

/-- The outline of an attribute. -/
def outline (attr : Attribute) : Outline :=
  ⟨attr.name, attr.kind, attr.least?, attr.greatest?, attr.ratio?, attr.flags⟩

/-- The outline decides whether an attribute is plain. -/
theorem Plain.congr {attr other : Attribute} (h : attr.Plain) (ho : other.outline = attr.outline) :
    other.Plain := by
  simp only [outline, Outline.mk.injEq] at ho
  obtain ⟨-, hkind, hleast, hgreatest, hratio, hflags⟩ := ho
  exact ⟨hkind ▸ h.kind, hratio ▸ h.ratio, hleast ▸ h.least, hgreatest ▸ h.greatest, hflags ▸ h.saved⟩

/-- It decides which values are settled. -/
theorem Settled.congr {attr other : Attribute} {value : List Atom} (h : attr.Settled value)
    (ho : other.outline = attr.outline) : other.Settled value := by
  simp only [outline, Outline.mk.injEq] at ho
  obtain ⟨-, hkind, hleast, hgreatest, -, -⟩ := ho
  have hbound : other.bound = attr.bound := by
    funext x
    simp only [bound, clamp, hkind, hleast, hgreatest]
  cases h with
  | truth hbool value => exact .truth (hkind.trans hbool) value
  | numbers hnumeric xs hlength hxs =>
    exact .numbers (hkind ▸ hnumeric) xs (hkind ▸ hlength) (hbound ▸ hxs)

/-- A plain attribute that holds settled values only. -/
structure Sound (attr : Attribute) : Prop where
  plain : attr.Plain
  value : attr.Settled attr.value
  default : attr.Settled attr.default
  frozen : ∀ snapshot, attr.frozen? = some snapshot → attr.Settled snapshot

/-- The attribute with the value that atoms make; it stays as it is if they make none, or none that
differs. -/
def accept (attr : Attribute) (atoms : List Atom) : Attribute :=
  match attr.conform atoms with
  | some value => if Atom.unchangedList value attr.value then attr else { attr with value }
  | none => attr

/-- The attribute with a snapshot of its value, or with none. -/
def freeze (attr : Attribute) (on : Bool) : Attribute :=
  { attr with frozen? := if on then some attr.value else none }

/-- What is saved of an attribute. -/
def record (attr : Attribute) : List Atom := attr.frozen?.getD attr.value

/-- Storing leaves the outline as it is. -/
theorem outline_accept (attr : Attribute) (atoms : List Atom) :
    (attr.accept atoms).outline = attr.outline := by
  unfold accept
  split
  · split <;> rfl
  · rfl

namespace Sound

variable {attr : Attribute}

/-- A sound attribute takes in atoms that are no NaN. -/
theorem accept (h : attr.Sound) {atoms : List Atom}
    (hatoms : ∀ atom ∈ atoms, atom.toDouble.isNaN = false) : (attr.accept atoms).Sound := by
  unfold Attribute.accept
  split
  · next value hvalue =>
    split
    · exact h
    · have hsettled := h.plain.settled_conform h.value.isNaN hatoms hvalue
      exact ⟨h.plain.congr rfl, hsettled.congr rfl, h.default.congr rfl,
        fun snapshot hsnapshot => (h.frozen snapshot hsnapshot).congr rfl⟩
  · exact h

/-- A snapshot of its value is settled. -/
theorem freeze (h : attr.Sound) (on : Bool) : (attr.freeze on).Sound := by
  refine ⟨h.plain.congr rfl, h.value.congr rfl, h.default.congr rfl, fun snapshot hsnapshot => ?_⟩
  cases on with
  | false => cases hsnapshot
  | true =>
    obtain rfl := Option.some.inj hsnapshot
    exact h.value.congr rfl

/-- What is saved of it is settled. -/
theorem record (h : attr.Sound) : attr.Settled attr.record := by
  unfold Attribute.record
  cases hfrozen : attr.frozen? with
  | none => exact h.value
  | some snapshot => exact h.frozen snapshot hfrozen

end Sound

/-- The text of a settled value keeps it if the doubles in it are read back. -/
theorem Settled.keeps {attr : Attribute} {value : List Atom} (h : attr.Settled value)
    (hback : ∀ atom ∈ value, atom.readsBack = true) :
    ∀ atom ∈ value, atom.every Notation.keeps = true := by
  intro atom hatom
  have hatomBack := hback atom hatom
  cases h with
  | truth hkind value =>
    obtain rfl := List.mem_singleton.mp hatom
    rfl
  | numbers hkind xs hlength hbound =>
    obtain ⟨x, hx, rfl⟩ := List.mem_map.mp hatom
    have hkeeps : Notation.keeps (.double x) = true := by
      rw [Notation.keeps, (hbound x hx).1]
      exact hatomBack
    exact hkeeps

end Attribute

namespace Sheet

/-- The keys of a saved box that are no names of attributes. -/
def reservedKeys : List String := ["id", "text", frozenKey]

/-- The outlines of the attributes under their names. -/
def outline (sheet : Sheet) : List (String × Outline) :=
  sheet.map fun entry => (entry.1, entry.2.outline)

/-- The attributes are sound, and each stands under its name. The names are distinct, and none is a key
that a saved box has besides. -/
structure Sound (sheet : Sheet) : Prop where
  names : ∀ entry ∈ sheet, entry.2.name = entry.1
  distinct : (reservedKeys ++ Keyed.keys sheet).Nodup
  attributes : ∀ entry ∈ sheet, entry.2.Sound

/-- The outlines tell the keys. -/
theorem keys_eq_of_outline {sheet other : Sheet} (h : other.outline = sheet.outline) :
    Keyed.keys other = Keyed.keys sheet := by
  have hkeys := congrArg (List.map Prod.fst) h
  rw [outline, outline, List.map_map, List.map_map] at hkeys
  exact hkeys

/-- The names that the outlines tell are right in one sheet if they are in the other. -/
theorem names_of_outline {sheet other : Sheet} (h : other.outline = sheet.outline)
    (hnames : ∀ entry ∈ sheet, entry.2.name = entry.1) : ∀ entry ∈ other, entry.2.name = entry.1 := by
  intro entry hentry
  have hmem : (entry.1, entry.2.outline) ∈ sheet.outline :=
    h ▸ List.mem_map_of_mem (f := fun entry : String × Attribute => (entry.1, entry.2.outline)) hentry
  obtain ⟨old, hold, heq⟩ := List.mem_map.mp hmem
  obtain ⟨hkey, houtline⟩ := Prod.mk.inj heq
  rw [← hkey, ← hnames old hold]
  exact (congrArg Outline.name houtline).symm

/-- A change that leaves the outline of an attribute as it is leaves that of the sheet as it is. -/
theorem outline_modify (sheet : Sheet) (name : String) {change : Attribute → Attribute}
    (h : ∀ attr, (change attr).outline = attr.outline) :
    outline (Keyed.modify sheet name change) = sheet.outline :=
  Keyed.map_modify fun entry _ => congrArg (Prod.mk entry.1) (h entry.2)

namespace Sound

variable {sheet : Sheet}

/-- The names of the attributes are distinct. -/
theorem nodup (h : sheet.Sound) : (Keyed.keys sheet).Nodup := (List.nodup_append.mp h.distinct).2.1

/-- A sheet of the same outline is sound if its attributes are. -/
theorem of_outline (h : sheet.Sound) {other : Sheet} (houtline : other.outline = sheet.outline)
    (hattributes : ∀ entry ∈ other, entry.2.Sound) : other.Sound :=
  ⟨names_of_outline houtline h.names, by rw [keys_eq_of_outline houtline]; exact h.distinct,
    hattributes⟩

/-- A change of an attribute keeps a sheet sound if it keeps the attribute sound, and the outline. -/
theorem modify (h : sheet.Sound) (name : String) {change : Attribute → Attribute}
    (houtline : ∀ attr, (change attr).outline = attr.outline)
    (hsound : ∀ attr, attr.Sound → (change attr).Sound) :
    Sheet.Sound (Keyed.modify sheet name change) ∧
      outline (Keyed.modify sheet name change) = sheet.outline := by
  have hsame := outline_modify sheet name houtline
  refine ⟨h.of_outline hsame fun entry hentry => ?_, hsame⟩
  rcases Keyed.mem_modify hentry with hmem | ⟨old, hold, heq⟩
  · exact h.attributes entry hmem
  · rw [heq]
    exact hsound old (h.attributes _ hold)

end Sound

/-! ### Storing, resetting, freezing -/

/-- What is stored is what the attribute accepts. -/
theorem store?_eq_some {sheet later : Sheet} {name : String} {atoms : List Atom} {force : Bool}
    (h : sheet.store? name atoms force = some later) :
    later = Keyed.modify sheet name fun attr => attr.accept atoms := by
  obtain ⟨attr, hattr, h⟩ := Option.bind_eq_some_iff.mp h
  split at h
  · cases h
  obtain ⟨value, hvalue, h⟩ := Option.bind_eq_some_iff.mp h
  split at h
  · cases h
  · next hchanged =>
    rw [← Option.some.inj h, ← Keyed.set_eq_modify hattr]
    simp only [Attribute.accept, hvalue, hchanged]
    rfl

/-- By force an attribute takes in all that it accepts. -/
theorem getD_store? (sheet : Sheet) (name : String) (atoms : List Atom) :
    (sheet.store? name atoms true).getD sheet =
      Keyed.modify sheet name fun attr => attr.accept atoms := by
  cases hstore : sheet.store? name atoms true with
  | some later => exact store?_eq_some hstore
  | none =>
    refine (Keyed.modify_eq_self fun attr hattr => ?_).symm
    rw [Option.getD_none] at hattr
    rw [store?, hattr] at hstore
    simp only [Bool.not_true, Bool.false_and, Bool.false_eq_true, if_false, Option.bind_some,
      Option.bind_eq_none_iff] at hstore
    unfold Attribute.accept
    split
    · next value hvalue =>
      have hnone := hstore value hvalue
      split at hnone
      · next hunchanged => rw [if_pos hunchanged]
      · cases hnone
    · rfl

/-- Keeping snapshots and forgetting them changes one attribute. -/
theorem freeze_eq_modify (sheet : Sheet) (name : String) (on : Bool) :
    sheet.freeze name on = Keyed.modify sheet name fun attr => attr.freeze on := rfl

namespace Sound

variable {sheet later : Sheet} {name : String}

/-- A sheet stays sound when atoms are stored that are no NaN. -/
theorem store? (h : sheet.Sound) {atoms : List Atom} {force : Bool}
    (hatoms : ∀ atom ∈ atoms, atom.toDouble.isNaN = false)
    (hstore : sheet.store? name atoms force = some later) :
    later.Sound ∧ later.outline = sheet.outline := by
  obtain rfl := store?_eq_some hstore
  exact h.modify name (fun attr => attr.outline_accept atoms) fun _ hattr => hattr.accept hatoms

/-- It stays sound when an attribute goes back to its default. -/
theorem reset? (h : sheet.Sound) (hreset : sheet.reset? name = some later) :
    later.Sound ∧ later.outline = sheet.outline := by
  obtain ⟨attr, hattr, hstore⟩ := Option.bind_eq_some_iff.mp hreset
  exact h.store? (h.attributes _ (Keyed.mem_of_get? hattr)).default.isNaN hstore

/-- It stays sound when a snapshot is kept or forgotten. -/
theorem freeze (h : sheet.Sound) (name : String) (on : Bool) :
    (sheet.freeze name on).Sound ∧ (sheet.freeze name on).outline = sheet.outline := by
  rw [freeze_eq_modify]
  exact h.modify name (fun _ => rfl) fun _ hattr => hattr.freeze on

end Sound

/-! ### Saving -/

/-- The names of the frozen attributes. -/
def snapshots (sheet : Sheet) : List Atom :=
  (sheet.filter fun entry => entry.2.frozen?.isSome).map fun entry => .symbol entry.1

/-- What is saved of a sheet: each attribute under its name, and then the names of the frozen ones if
there are any. -/
def entries (sheet : Sheet) : Dico :=
  sheet.map (fun entry => (entry.1, entry.2.record)) ++
    if sheet.snapshots.isEmpty then [] else [(frozenKey, sheet.snapshots)]

/-- Each attribute is saved under its name. -/
theorem mem_entries {sheet : Sheet} {entry : String × Attribute} (hentry : entry ∈ sheet) :
    (entry.1, entry.2.record) ∈ sheet.entries :=
  List.mem_append_left _ (List.mem_map.mpr ⟨entry, hentry, rfl⟩)

/-- The keys of what is saved are distinct if the names of the attributes are, and none is another key. -/
theorem nodup_keys_entries {sheet : Sheet} (header : Dico)
    (h : (Keyed.keys header ++ frozenKey :: Keyed.keys sheet).Nodup) :
    (Keyed.keys (header ++ sheet.entries)).Nodup := by
  have hkeys : Keyed.keys (header ++ sheet.entries) = Keyed.keys header ++ (Keyed.keys sheet ++
      if sheet.snapshots.isEmpty then [] else [frozenKey]) := by
    simp only [Keyed.keys, entries, List.map_append, List.map_map]
    split <;> rfl
  have hfront : ([frozenKey] ++ Keyed.keys sheet).Perm (Keyed.keys sheet ++ [frozenKey]) :=
    List.perm_append_comm
  have hdistinct : (Keyed.keys header ++ (Keyed.keys sheet ++ [frozenKey])).Nodup :=
    (List.Perm.nodup_iff (hfront.append_left _)).mp h
  rw [hkeys]
  refine hdistinct.sublist ((List.Sublist.refl _).append ((List.Sublist.refl _).append ?_))
  split
  · exact List.nil_sublist _
  · exact List.Sublist.refl _

/-- The keys under which a box is saved are distinct. -/
theorem Sound.nodup_keys {sheet : Sheet} (h : sheet.Sound) {header : Dico}
    (hheader : Keyed.keys header = ["id", "text"]) :
    (Keyed.keys (header ++ sheet.entries)).Nodup := nodup_keys_entries header (hheader ▸ h.distinct)

/-- The attributes that are saved, under their names. -/
def kept (sheet : Sheet) : Sheet := sheet.filter fun entry => !entry.2.flags.unsaved

/-- A sheet is saved attribute by attribute, over what is there. The names of the frozen attributes are
saved if there are any. -/
theorem write_eq_merge {sheet : Sheet} (hnames : ∀ entry ∈ sheet, entry.2.name = entry.1) (dico : Dico) :
    sheet.write dico =
      let written := Keyed.merge dico (sheet.kept.map fun entry => (entry.1, entry.2.record))
      if sheet.kept.snapshots.isEmpty then written else written.set frozenKey sheet.kept.snapshots := by
  have hsaved : sheet.saved = sheet.kept.map Prod.snd := List.filter_map
  have hkept : ∀ entry ∈ sheet.kept, entry.2.name = entry.1 := fun entry hentry =>
    hnames entry (List.mem_of_mem_filter hentry)
  have hrecords : (sheet.kept.map Prod.snd).map (fun attr => (attr.name, attr.frozen?.getD attr.value)) =
      sheet.kept.map fun entry => (entry.1, entry.2.record) := by
    rw [List.map_map]
    exact List.map_congr_left fun entry hentry =>
      congrArg (Prod.mk · entry.2.record) (hkept entry hentry)
  have hfrozen : ((sheet.kept.map Prod.snd).filter fun attr => attr.frozen?.isSome).map
      (fun attr => Atom.symbol attr.name) = sheet.kept.snapshots := by
    rw [List.filter_map, List.map_map]
    exact List.map_congr_left fun entry hentry =>
      congrArg Atom.symbol (hkept entry (List.mem_of_mem_filter hentry))
  rw [Sheet.write, hsaved, hrecords, hfrozen]

/-- What is saved goes behind what is there if no key is there already. -/
theorem write_eq {sheet : Sheet} (hnames : ∀ entry ∈ sheet, entry.2.name = entry.1) {header : Dico}
    (hnodup : (Keyed.keys (header ++ sheet.kept.entries)).Nodup) :
    sheet.write header = header ++ sheet.kept.entries := by
  have hmerge : (Keyed.keys (header ++ sheet.kept.map fun entry =>
      (entry.1, entry.2.record))).Nodup := by
    refine hnodup.sublist (List.Sublist.map _ ?_)
    exact (List.Sublist.refl header).append (List.sublist_append_left _ _)
  rw [write_eq_merge hnames]
  simp only [Keyed.merge_of_nodup hmerge, entries] at hnodup ⊢
  split
  · rw [List.append_nil]
  · next hsome =>
    rw [if_neg hsome, ← List.append_assoc, Keyed.keys, List.map_append] at hnodup
    have hnew : frozenKey ∉ Keyed.keys (header ++ sheet.kept.map fun entry =>
        (entry.1, entry.2.record)) := fun hmem =>
      (List.nodup_append.mp hnodup).2.2 _ hmem _ (by simp) rfl
    rw [Keyed.set_of_notMem hnew, List.append_assoc]

/-- A sound sheet is saved as a whole. -/
theorem Sound.write {sheet : Sheet} (h : sheet.Sound) {header : Dico}
    (hheader : Keyed.keys header = ["id", "text"]) : sheet.write header = header ++ sheet.entries := by
  have hall : sheet.kept = sheet := by
    refine List.filter_eq_self.mpr fun entry hentry => ?_
    rw [(h.attributes entry hentry).plain.saved]
    rfl
  have hnodup : (Keyed.keys (header ++ sheet.kept.entries)).Nodup := by
    rw [hall]
    exact h.nodup_keys hheader
  rw [write_eq h.names hnodup, hall]

/-- The text of a saved sheet keeps all of it if the doubles in it are read back. -/
theorem Sound.keeps_write {sheet : Sheet} (h : sheet.Sound) {header : Dico}
    (hheader : Keyed.keys header = ["id", "text"])
    (hkept : ∀ entry ∈ header, ∀ atom ∈ entry.2, atom.every Notation.keeps = true)
    (hback : ∀ entry ∈ sheet, ∀ atom ∈ entry.2.record, atom.readsBack = true) :
    (Atom.dico (sheet.write header)).every Notation.keeps = true := by
  rw [h.write hheader, Atom.every_dico, Notation.keeps, decide_eq_true_eq]
  refine ⟨h.nodup_keys hheader, fun entry hentry => ?_⟩
  rcases List.mem_append.mp hentry with hmem | hmem
  · exact hkept entry hmem
  rcases List.mem_append.mp hmem with hmem | hmem
  · obtain ⟨attr, hattr, rfl⟩ := List.mem_map.mp hmem
    exact (h.attributes attr hattr).record.keeps (hback attr hattr)
  · split at hmem
    · cases hmem
    · obtain rfl := List.mem_singleton.mp hmem
      intro atom hatom
      obtain ⟨frozen, -, rfl⟩ := List.mem_map.mp hatom
      rfl

end Sheet

end Patchbay
