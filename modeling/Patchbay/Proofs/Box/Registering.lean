import Mathlib.Logic.Relation
import Patchbay.Box.Catalog
import Patchbay.Proofs.Keyed

/-!
# Catalogs grow

Whatever is asked of a catalog, it takes on names one after the other: every name goes to the end, and it
was free before. So what stands under a name stays. Registering what every studio knows asks for its
names one by one, and counts those that are taken on; once all of them are known, there is nothing to
count.
-/

namespace Patchbay.Catalog

/-- A single name that a catalog is asked to take on. -/
inductive Wish where
  | box (descriptor : Descriptor) (model : Model)
  | nickname (name target : String)

/-- What can be asked of a catalog. -/
inductive Request where
  | wish (wish : Wish)
  | builtins

/-- The name that is asked for. -/
def Wish.name : Wish → String
  | box descriptor _ => descriptor.name
  | nickname name _ => name

/-- The catalog with a name that it was asked to take on, unless it refuses. -/
def wish? (catalog : Catalog) : Wish → Option Catalog
  | .box descriptor model => catalog.register? descriptor model
  | .nickname name target => catalog.alias? name target

/-- The catalog after something was asked of it. What is refused leaves it as it is. -/
def grant (catalog : Catalog) : Request → Catalog
  | .wish wish => (catalog.wish? wish).getD catalog
  | .builtins => catalog.addBuiltins.1

/-- The catalog after one thing after the other was asked of it. -/
def grantAll (catalog : Catalog) (requests : List Request) : Catalog := requests.foldl grant catalog

/-! ### One name more -/

/-- A box is registered under its name if that is free. -/
theorem get?_box {catalog : Catalog} {descriptor : Descriptor} (h : catalog.has descriptor.name = false)
    (model : Model) : (catalog.grant (.wish (.box descriptor model))).get? descriptor.name =
      some ⟨descriptor, model, none⟩ := by
  rw [grant, wish?, register?, h]
  exact Keyed.get?_set_self catalog descriptor.name _

/-- An alias is registered under its name if that is free and the target is known. -/
theorem get?_nickname {catalog : Catalog} {name target : String} {original : Registration}
    (h : catalog.has name = false) (htarget : catalog.get? target = some original) :
    (catalog.grant (.wish (.nickname name target))).get? name =
      some { original with aliasOf? := some target } := by
  rw [grant, wish?, alias?, h, htarget]
  exact Keyed.get?_set_self catalog name _

/-- A catalog with the name that a wish asks for, behind all others. -/
inductive Adds (catalog : Catalog) : Wish → Catalog → Prop where
  | box (descriptor : Descriptor) (model : Model) (hnew : descriptor.name ∉ catalog.keys) :
    Adds catalog (.box descriptor model) (catalog ++ [(descriptor.name, ⟨descriptor, model, none⟩)])
  | nickname (name : String) {target : String} {original : Registration} (hnew : name ∉ catalog.keys)
    (htarget : catalog.get? target = some original) :
    Adds catalog (.nickname name target)
      (catalog ++ [(name, { original with aliasOf? := some target })])

variable {catalog later : Catalog}

/-- A name that is not taken is not there. -/
theorem notMem_keys_of_free {name : String} (h : ¬ catalog.has name = true) : name ∉ catalog.keys :=
  fun hmem => h (Keyed.has_iff.mpr hmem)

/-- A wish that is granted adds its name, and nothing else. -/
theorem adds_of_wish? {wish : Wish} (h : catalog.wish? wish = some later) : catalog.Adds wish later := by
  cases wish with
  | box descriptor model =>
    rw [wish?, register?] at h
    split at h
    · cases h
    · next hfree =>
      have hnew := notMem_keys_of_free hfree
      rw [Keyed.set_of_notMem hnew] at h
      exact Option.some.inj h ▸ .box descriptor model hnew
  | nickname name target =>
    rw [wish?, alias?] at h
    split at h
    · cases h
    · next hfree =>
      have hnew := notMem_keys_of_free hfree
      obtain ⟨original, htarget, rfl⟩ := Option.map_eq_some_iff.mp h
      rw [Keyed.set_of_notMem hnew]
      exact .nickname name hnew htarget

/-- A wish for a name that is taken is refused. -/
theorem wish?_of_taken {wish : Wish} (h : wish.name ∈ catalog.keys) : catalog.wish? wish = none := by
  have htaken := Keyed.has_iff.mpr h
  cases wish with
  | box | nickname => exact if_pos htaken

namespace Adds

variable {wish : Wish}

theorem isPrefix (h : catalog.Adds wish later) : catalog <+: later := by
  cases h with
  | box | nickname => exact List.prefix_append _ _

theorem length (h : catalog.Adds wish later) : later.length = catalog.length + 1 := by
  cases h with
  | box | nickname => exact List.length_append

theorem keys (h : catalog.Adds wish later) : Keyed.keys later = Keyed.keys catalog ++ [wish.name] := by
  cases h with
  | box | nickname => exact List.map_append

theorem name_mem (h : catalog.Adds wish later) : wish.name ∈ Keyed.keys later := by
  rw [h.keys]
  exact List.mem_append_right _ (List.mem_singleton_self _)

end Adds

/-! ### Many names more -/

/-- A catalog that holds more names, taken on one after the other. -/
abbrev Leads : Catalog → Catalog → Prop :=
  Relation.ReflTransGen fun catalog later => ∃ wish, catalog.Adds wish later

theorem Leads.isPrefix (h : catalog.Leads later) : catalog <+: later := by
  induction h with
  | refl => exact List.prefix_refl _
  | tail _ hadds ih =>
    obtain ⟨wish, hadds⟩ := hadds
    exact ih.trans hadds.isPrefix

/-- What a name stands for stays. -/
theorem get?_of_start (h : catalog <+: later) {name : String} {registration : Registration}
    (hname : catalog.get? name = some registration) : later.get? name = some registration := by
  obtain ⟨more, rfl⟩ := h
  rw [Keyed.get?_append, hname, Option.some_or]

/-- No name is lost. -/
theorem keys_subset_of_start (h : catalog <+: later) : catalog.keys ⊆ later.keys :=
  (h.map Prod.fst).subset

/-- The catalog after wishes were granted, one after the other. -/
def wishAll (catalog : Catalog) (wishes : List Wish) : Catalog :=
  wishes.foldl (fun catalog wish => catalog.grant (.wish wish)) catalog

theorem wishAll_cons (wish : Wish) (wishes : List Wish) :
    catalog.wishAll (wish :: wishes) = (catalog.grant (.wish wish)).wishAll wishes := rfl

theorem wishAll_append (wishes more : List Wish) :
    catalog.wishAll (wishes ++ more) = (catalog.wishAll wishes).wishAll more := List.foldl_append

/-- A wish leads on, or leaves the catalog as it is. -/
theorem leads_wish (catalog : Catalog) (wish : Wish) : catalog.Leads (catalog.grant (.wish wish)) := by
  rw [grant]
  cases hwish : catalog.wish? wish with
  | none => exact .refl
  | some later => exact .single ⟨wish, adds_of_wish? hwish⟩

theorem leads_wishAll (catalog : Catalog) (wishes : List Wish) :
    catalog.Leads (catalog.wishAll wishes) := by
  induction wishes generalizing catalog with
  | nil => exact .refl
  | cons wish wishes ih => exact (catalog.leads_wish wish).trans (ih _)

/-- The wishes that make up a request. -/
def Request.wishes : Request → List Wish
  | .wish single => [single]
  | .builtins => (Catalog.builtins.map fun entry => .box entry.1 entry.2) ++
      shortNames.map fun entry => .nickname entry.1 entry.2

/-- Grant a wish, and count it unless it is refused. -/
def count (state : Catalog × Nat) (wish : Wish) : Catalog × Nat :=
  match state.1.wish? wish with
  | some later => (later, state.2 + 1)
  | none => state

/-- Counting grants the wishes, and counts by how much the catalog grows. -/
theorem foldl_count (wishes : List Wish) (state : Catalog × Nat) :
    (wishes.foldl count state).1 = state.1.wishAll wishes ∧
      (wishes.foldl count state).1.length + state.2 =
        state.1.length + (wishes.foldl count state).2 := by
  induction wishes generalizing state with
  | nil => exact ⟨rfl, rfl⟩
  | cons wish wishes ih =>
    obtain ⟨hwishes, hlength⟩ := ih (count state wish)
    rw [List.foldl_cons, wishAll_cons, hwishes, grant]
    rw [hwishes] at hlength
    unfold count at hlength ⊢
    cases hwish : state.1.wish? wish with
    | none =>
      rw [hwish] at hlength
      exact ⟨rfl, hlength⟩
    | some later =>
      rw [hwish] at hlength
      refine ⟨rfl, ?_⟩
      have hone := (adds_of_wish? hwish).length
      dsimp only at hlength ⊢
      omega

/-- Registering what every studio knows is granting its wishes and counting them. -/
theorem addBuiltins_eq_foldl (catalog : Catalog) :
    catalog.addBuiltins = Request.builtins.wishes.foldl count (catalog, 0) := by
  rw [Request.wishes, List.foldl_append, List.foldl_map, List.foldl_map, addBuiltins]
  generalize builtins = boxes
  generalize shortNames = names
  rfl

/-- What is counted is by how much the catalog grows. -/
theorem length_addBuiltins (catalog : Catalog) :
    catalog.addBuiltins.1.length = catalog.length + catalog.addBuiltins.2 := by
  rw [addBuiltins_eq_foldl]
  generalize Request.builtins.wishes = wishes
  exact (foldl_count wishes (catalog, 0)).2

/-- Whatever is asked of a catalog, it grants the wishes that the request is made of. -/
theorem grant_eq_wishAll (catalog : Catalog) (request : Request) :
    catalog.grant request = catalog.wishAll request.wishes := by
  cases request with
  | wish wish => rfl
  | builtins => rw [grant, addBuiltins_eq_foldl, (foldl_count _ _).1]

/-- Whatever is asked of a catalog, it takes on names one after the other. -/
theorem leads_grant (catalog : Catalog) (request : Request) : catalog.Leads (catalog.grant request) := by
  rw [grant_eq_wishAll]
  exact catalog.leads_wishAll _

theorem leads_grantAll (catalog : Catalog) (requests : List Request) :
    catalog.Leads (catalog.grantAll requests) := by
  induction requests generalizing catalog with
  | nil => exact .refl
  | cons request rest ih => exact (catalog.leads_grant request).trans (ih _)

/-! ### Names that are known -/

/-- The target of an alias is known; a box needs none. -/
def Wish.Known (catalog : Catalog) : Wish → Prop
  | box _ _ => True
  | nickname _ target => target ∈ catalog.keys

/-- A wish is refused only if its name is taken or its target is not known. So its name is there
afterwards. -/
theorem name_mem_wish {wish : Wish} (h : wish.Known catalog) :
    wish.name ∈ (catalog.grant (.wish wish)).keys := by
  rw [grant]
  cases hwish : catalog.wish? wish with
  | some later => exact (adds_of_wish? hwish).name_mem
  | none =>
    rw [Option.getD_none]
    cases wish with
    | box descriptor model =>
      rw [wish?, register?] at hwish
      split at hwish
      · next htaken => exact Keyed.has_iff.mp htaken
      · cases hwish
    | nickname name target =>
      rw [wish?, alias?] at hwish
      split at hwish
      · next htaken => exact Keyed.has_iff.mp htaken
      · exact absurd h (Keyed.notMem_keys (Option.map_eq_none_iff.mp hwish))

/-- All names are there after wishes were granted whose targets were known. -/
theorem name_mem_wishAll {wishes : List Wish} (h : ∀ wish ∈ wishes, wish.Known catalog) :
    ∀ wish ∈ wishes, wish.name ∈ (catalog.wishAll wishes).keys := by
  induction wishes generalizing catalog with
  | nil => nofun
  | cons first rest ih =>
    obtain ⟨hfirst, hrest⟩ := List.forall_mem_cons.mp h
    have hstart := (catalog.leads_wish first).isPrefix
    have hknown : ∀ wish ∈ rest, wish.Known (catalog.grant (.wish first)) := by
      intro wish hwish
      have hbefore := hrest wish hwish
      cases wish with
      | box => trivial
      | nickname name target => exact keys_subset_of_start hstart hbefore
    rw [wishAll_cons]
    refine List.forall_mem_cons.mpr ⟨?_, ih hknown⟩
    exact keys_subset_of_start (leads_wishAll _ rest).isPrefix (name_mem_wish hfirst)

/-- Wishes for names that are taken change nothing. -/
theorem wishAll_of_taken {wishes : List Wish} (h : ∀ wish ∈ wishes, wish.name ∈ catalog.keys) :
    catalog.wishAll wishes = catalog := by
  induction wishes with
  | nil => rfl
  | cons first rest ih =>
    obtain ⟨hfirst, hrest⟩ := List.forall_mem_cons.mp h
    rw [wishAll_cons, grant, wish?_of_taken hfirst, Option.getD_none, ih hrest]

/-- The names of all that every studio knows are there once it was registered. -/
theorem builtins_known (catalog : Catalog) :
    ∀ wish ∈ Request.builtins.wishes, wish.name ∈ (catalog.grant .builtins).keys := by
  have htargets : ∀ entry ∈ shortNames, entry.2 ∈ builtins.map fun entry => entry.1.name := by decide
  have hboxes : ∀ wish ∈ builtins.map fun entry => Wish.box entry.1 entry.2, wish.Known catalog := by
    intro wish hwish
    obtain ⟨entry, -, rfl⟩ := List.mem_map.mp hwish
    trivial
  have hfirst := name_mem_wishAll hboxes
  rw [grant_eq_wishAll, Request.wishes, wishAll_append]
  refine List.forall_mem_append.mpr ⟨fun wish hwish => ?_, name_mem_wishAll fun wish hwish => ?_⟩
  · exact keys_subset_of_start (leads_wishAll _ _).isPrefix (hfirst wish hwish)
  · obtain ⟨entry, hentry, rfl⟩ := List.mem_map.mp hwish
    obtain ⟨box, hbox, hname⟩ := List.mem_map.mp (htargets entry hentry)
    have hknown := hfirst (.box box.1 box.2) (List.mem_map_of_mem hbox)
    rwa [Wish.name, hname] at hknown

/-- Once it was registered it is never registered again. -/
theorem addBuiltins_again {catalog later : Catalog} (h : catalog.grant .builtins <+: later) :
    later.addBuiltins = (later, 0) := by
  have htaken : ∀ wish ∈ Request.builtins.wishes, wish.name ∈ later.keys := fun wish hwish =>
    keys_subset_of_start h (catalog.builtins_known wish hwish)
  obtain ⟨hwishes, hlength⟩ := foldl_count Request.builtins.wishes (later, 0)
  rw [wishAll_of_taken htaken] at hwishes
  rw [addBuiltins_eq_foldl]
  refine Prod.ext hwishes ?_
  rw [hwishes] at hlength
  dsimp only at hlength ⊢
  omega

end Patchbay.Catalog
