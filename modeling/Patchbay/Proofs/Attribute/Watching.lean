import Patchbay.Attribute.Watch
import Patchbay.Proofs.Attribute.Conforming

/-!
# Whatever is asked of a watched sheet

A sheet changes in a few ways only: values are stored, snapshots are kept or forgotten, flags are set, and
attributes come and go. Listeners set values in turn, to any depth, but these are stored in the same way.
So what all these ways keep holds of every sheet that any requests lead to.

In particular all values stay: the current ones, the defaults and the snapshots have the shape of their
kind, and their attribute takes them in as they are.
-/

namespace Patchbay

namespace Watch

/-- What can be asked of a watched sheet. -/
inductive Step (L : Type) where
  | add (declaration : Declaration)
  | remove (name : String)
  | set (name : String) (atoms : List Atom)
  | reset (name : String)
  | resetAll
  | setFlags (name : String) (flags : Flags) (on : Bool)
  | freeze (name : String) (on : Bool)
  | restore (dico : Dico) (all : Bool)
  | bind (listener : L) (names : List String)
  | unbind (listener : L)

variable {L : Type}

/-- Do what is asked. There is no result if listeners answer one another too deeply. -/
def Step.run [DecidableEq L] (react : Reactions L) (watch : Watch L) : Step L → Option (Watch L)
  | .add declaration => some { watch with sheet := watch.sheet.add declaration.declared }
  | .remove name => some { watch with sheet := Keyed.erase watch.sheet name }
  | .set name atoms => (watch.set react name atoms).map Outcome.watch
  | .reset name => (watch.reset react name).map Outcome.watch
  | .resetAll => (watch.resetAll react).map Outcome.watch
  | .setFlags name flags on => (watch.setFlags react name flags on).map Outcome.watch
  | .freeze name on => some { watch with sheet := watch.sheet.freeze name on }
  | .restore dico all => (watch.restore react dico all).map Outcome.watch
  | .bind listener names => some (watch.bind listener names)
  | .unbind listener => some (watch.unbind listener)

/-- Do what is asked, one step after the other. -/
def runAll [DecidableEq L] (react : Reactions L) (steps : List (Step L)) (watch : Watch L) : Option (Watch L) :=
  steps.foldlM (Step.run react) watch

/-- What every step of a fold keeps holds of its result. -/
theorem of_foldlM {α β : Type} {step : β → α → Option β} {items : List α} {P : β → Prop}
    (hstep : ∀ item ∈ items, ∀ {first next}, P first → step first item = some next → P next)
    {first last : β} (h : P first) (hfold : items.foldlM step first = some last) : P last := by
  induction items generalizing first with
  | nil =>
    obtain rfl := Option.some.inj hfold
    exact h
  | cons item items ih =>
    obtain ⟨next, hnext, hrest⟩ := Option.bind_eq_some_iff.mp hfold
    exact ih (fun item hitem => hstep item (List.mem_cons_of_mem _ hitem))
      (hstep item List.mem_cons_self h hnext) hrest

section Kept

variable {P : Sheet → Prop} {watch : Watch L} {react : Reactions L}

/-- Announcing keeps what listeners keep in what they do in turn. -/
theorem announce_succ {depth : Nat} {name : String} {change : Patchbay.Change}
    (hanswers : ∀ {requests : List (String × List Atom)} {run later : Run L}, P run.sheet →
      storeAll watch react depth requests run = some later → P later.sheet)
    {listeners : List L} {run later : Run L} (h : P run.sheet)
    (hrun : announce watch react (depth + 1) name change listeners run = some later) :
    P later.sheet := by
  induction listeners generalizing run with
  | nil =>
    rw [announce] at hrun
    obtain rfl := Option.some.inj hrun
    exact h
  | cons listener listeners ih =>
    rw [announce] at hrun
    obtain ⟨answered, hanswered, hrest⟩ := Option.bind_eq_some_iff.mp hrun
    have hcalled : ∀ calls, P (⟨run.sheet, calls⟩ : Run L).sheet := fun _ => h
    exact ih (hanswers (hcalled _) hanswered) hrest

variable (hstore : ∀ {sheet later : Sheet} {name : String} {atoms : List Atom} {force : Bool},
  P sheet → sheet.store? name atoms force = some later → P later)

include hstore

/-- Storing a value with all that follows keeps what storing alone keeps, if announcing does. -/
theorem attempt_of_announce {depth : Nat}
    (hannounce : ∀ {name : String} {listeners : List L} {run later : Run L}, P run.sheet →
      announce watch react depth name .value listeners run = some later → P later.sheet)
    {name : String} {atoms : List Atom} {force changed : Bool} {run later : Run L} (h : P run.sheet)
    (hrun : attempt watch react depth name atoms force run = some (later, changed)) :
    P later.sheet := by
  rw [attempt] at hrun
  split at hrun
  · obtain ⟨rfl, -⟩ := Prod.mk.inj (Option.some.inj hrun)
    exact h
  next sheet hsheet =>
  have hstored : P sheet := hstore h hsheet
  split at hrun
  · obtain ⟨announced, hannounced, heq⟩ := Option.map_eq_some_iff.mp hrun
    obtain ⟨rfl, -⟩ := Prod.mk.inj heq
    exact hannounce hstored hannounced
  · obtain ⟨rfl, -⟩ := Prod.mk.inj (Option.some.inj hrun)
    exact hstored

/-- What a listener does keeps what storing keeps, if announcing does. -/
theorem storeAll_of_announce {depth : Nat}
    (hannounce : ∀ {name : String} {listeners : List L} {run later : Run L}, P run.sheet →
      announce watch react depth name .value listeners run = some later → P later.sheet)
    {requests : List (String × List Atom)} {run later : Run L} (h : P run.sheet)
    (hrun : storeAll watch react depth requests run = some later) : P later.sheet := by
  induction requests generalizing run with
  | nil =>
    rw [storeAll] at hrun
    obtain rfl := Option.some.inj hrun
    exact h
  | cons request requests ih =>
    rw [storeAll] at hrun
    obtain ⟨⟨stored, changed⟩, hstored, hrest⟩ := Option.bind_eq_some_iff.mp hrun
    exact ih (attempt_of_announce hstore hannounce h hstored) hrest

/-- Announcing keeps what storing keeps, to whatever depth listeners answer. -/
theorem announce_keeps {depth : Nat} {name : String} {change : Patchbay.Change} {listeners : List L}
    {run later : Run L} (h : P run.sheet)
    (hrun : announce watch react depth name change listeners run = some later) : P later.sheet := by
  induction depth generalizing name change listeners run later with
  | zero =>
    cases listeners with
    | nil =>
      rw [announce] at hrun
      obtain rfl := Option.some.inj hrun
      exact h
    | cons listener listeners =>
      rw [announce] at hrun
      cases hrun
  | succ depth ih =>
    exact announce_succ (fun h hrun => storeAll_of_announce hstore ih h hrun) h hrun

/-- So does storing a value with all that follows from it. -/
theorem put_keeps {name : String} {atoms : List Atom} {force changed : Bool} {run later : Run L}
    (h : P run.sheet) (hput : put watch react name atoms force run = some (later, changed)) :
    P later.sheet := by
  exact attempt_of_announce hstore (fun h hrun => announce_keeps hstore h hrun) h hput

/-- A step keeps what storing keeps, if the other ways in which it changes a sheet do. -/
theorem Step.keeps [DecidableEq L] {step : Step L}
    (hadd : ∀ declaration, step = .add declaration →
      ∀ sheet, P sheet → P (sheet.add declaration.declared))
    (hremove : ∀ name, step = .remove name → ∀ sheet, P sheet → P (Keyed.erase sheet name))
    (hflags : ∀ name flags on, step = .setFlags name flags on →
      ∀ sheet later, P sheet → sheet.setFlags? name flags on = some later → P later)
    (hfreeze : ∀ sheet name on, P sheet → P (sheet.freeze name on))
    {later : Watch L} (h : P watch.sheet) (hrun : step.run react watch = some later) :
    P later.sheet := by
  cases step with
  | add declaration =>
    obtain rfl := Option.some.inj hrun
    exact hadd declaration rfl _ h
  | remove name =>
    obtain rfl := Option.some.inj hrun
    exact hremove name rfl _ h
  | set name atoms =>
    obtain ⟨outcome, houtcome, rfl⟩ := Option.map_eq_some_iff.mp hrun
    obtain ⟨result, hput, rfl⟩ := Option.map_eq_some_iff.mp houtcome
    have hstart : P watch.start.sheet := h
    exact put_keeps hstore hstart hput
  | reset name =>
    obtain ⟨outcome, houtcome, rfl⟩ := Option.map_eq_some_iff.mp hrun
    unfold Watch.reset at houtcome
    split at houtcome
    · obtain rfl := Option.some.inj houtcome
      exact h
    · obtain ⟨result, hput, rfl⟩ := Option.map_eq_some_iff.mp houtcome
      have hstart : P watch.start.sheet := h
      exact put_keeps hstore hstart hput
  | resetAll =>
    obtain ⟨outcome, houtcome, rfl⟩ := Option.map_eq_some_iff.mp hrun
    obtain ⟨result, hfold, rfl⟩ := Option.map_eq_some_iff.mp houtcome
    have hstart : P watch.start.sheet := h
    refine of_foldlM (P := fun run : Run L => P run.sheet) ?_ hstart hfold
    intro name _ first next hfirst hnext
    split at hnext
    · obtain rfl := Option.some.inj hnext
      exact hfirst
    · obtain ⟨result, hput, rfl⟩ := Option.map_eq_some_iff.mp hnext
      exact put_keeps hstore hfirst hput
  | setFlags name flags on =>
    obtain ⟨outcome, houtcome, rfl⟩ := Option.map_eq_some_iff.mp hrun
    unfold Watch.setFlags at houtcome
    split at houtcome
    · obtain rfl := Option.some.inj houtcome
      exact h
    · next sheet hsheet =>
      obtain ⟨result, hannounce, rfl⟩ := Option.map_eq_some_iff.mp houtcome
      have hstart : P (⟨sheet, []⟩ : Run L).sheet := hflags name flags on rfl _ _ h hsheet
      exact announce_keeps hstore hstart hannounce
  | freeze name on =>
    obtain rfl := Option.some.inj hrun
    exact hfreeze _ name on h
  | restore dico all =>
    obtain ⟨outcome, houtcome, rfl⟩ := Option.map_eq_some_iff.mp hrun
    obtain ⟨result, hfold, rfl⟩ := Option.map_eq_some_iff.mp houtcome
    have hstart : P watch.start.sheet := h
    refine of_foldlM (P := fun run : Run L => P run.sheet) ?_ hstart hfold
    intro name _ first next hfirst hnext
    obtain ⟨result, hput, rfl⟩ := Option.map_eq_some_iff.mp hnext
    have hstored : P result.1.sheet := put_keeps hstore hfirst hput
    dsimp only
    split
    · exact hfreeze _ name true hstored
    · exact hstored
  | bind listener names =>
    obtain rfl := Option.some.inj hrun
    unfold Watch.bind
    split <;> exact h
  | unbind listener =>
    obtain rfl := Option.some.inj hrun
    exact h

end Kept

/-! ### Sheets that nobody watches -/

/-- What a step makes of a sheet without listeners. -/
def Step.alone (sheet : Sheet) : Step L → Sheet
  | .add declaration => sheet.add declaration.declared
  | .remove name => Keyed.erase sheet name
  | .set name atoms => (sheet.store? name atoms false).getD sheet
  | .reset name => (sheet.reset? name).getD sheet
  | .resetAll => (Keyed.keys sheet).foldl (fun sheet name => (sheet.reset? name).getD sheet) sheet
  | .setFlags name flags on => (sheet.setFlags? name flags on).getD sheet
  | .freeze name on => sheet.freeze name on
  | .restore dico all => sheet.restore dico all
  | .bind _ _ | .unbind _ => sheet

/-- Decide whether a step leaves a sheet without listeners. -/
def Step.binds : Step L → Bool
  | .bind _ _ => true
  | _ => false

section Alone

variable {react : Reactions L}

/-- Nothing follows from a value that is stored if there is nobody to tell. -/
theorem put_alone (first : Sheet) (name : String) (atoms : List Atom) (force : Bool) (sheet : Sheet) :
    put { sheet := first } react name atoms force ⟨sheet, []⟩ =
      some (⟨(sheet.store? name atoms force).getD sheet, []⟩,
        (sheet.store? name atoms force).isSome) := by
  have hnone : targets ({ sheet := first } : Watch L) name = [] := rfl
  rw [put, attempt]
  cases hstore : sheet.store? name atoms force with
  | none => simp
  | some later => simp [hnone, announce]

/-- A fold that always has a result has that of its steps. -/
theorem foldlM_alone {α : Type} {step : Run L → α → Option (Run L)} (change : Sheet → α → Sheet)
    (items : List α) (sheet : Sheet)
    (hstep : ∀ sheet item, step ⟨sheet, []⟩ item = some ⟨change sheet item, []⟩) :
    items.foldlM step ⟨sheet, []⟩ = some ⟨items.foldl change sheet, []⟩ := by
  induction items generalizing sheet with
  | nil => rfl
  | cons item items ih =>
    rw [List.foldlM_cons, hstep]
    exact ih (change sheet item)

/-- Without listeners a step changes the sheet and nothing else. -/
theorem Step.run_alone [DecidableEq L] {step : Step L} (h : step.binds = false) (sheet : Sheet) :
    step.run react { sheet } = some { sheet := step.alone sheet } := by
  cases step with
  | add | remove | freeze | unbind => rfl
  | bind => cases h
  | set name atoms =>
    simp only [Step.run, Watch.set, start, put_alone, Option.map_some]
    rfl
  | reset name =>
    simp only [Step.run, Watch.reset, start, put_alone, Step.alone, Sheet.reset?]
    cases sheet.get? name <;> rfl
  | resetAll =>
    rw [Step.run, Watch.resetAll, start,
      foldlM_alone fun sheet name => (sheet.reset? name).getD sheet]
    · rfl
    · intro other name
      simp only [put_alone, Sheet.reset?]
      cases other.get? name <;> rfl
  | setFlags name flags on =>
    have hnone : targets ({ sheet } : Watch L) name = [] := rfl
    simp only [Step.run, Watch.setFlags, Step.alone, hnone, announce]
    cases sheet.setFlags? name flags on <;> rfl
  | restore dico all =>
    rw [Step.run, Watch.restore, start, foldlM_alone fun sheet name =>
      let stored := (sheet.store? name (dico.get name) true).getD sheet
      if (Sheet.frozenNames dico).contains name then stored.freeze name true else stored]
    · rfl
    · intro other name
      simp only [put_alone, Option.map_some]
      split <;> rfl

/-- So do any steps. -/
theorem runAll_alone [DecidableEq L] {steps : List (Step L)}
    (h : ∀ step ∈ steps, step.binds = false) (sheet : Sheet) :
    runAll react steps { sheet } = some { sheet := steps.foldl Step.alone sheet } := by
  induction steps generalizing sheet with
  | nil => rfl
  | cons step steps ih =>
    rw [runAll, List.foldlM_cons, Step.run_alone (h step List.mem_cons_self)]
    exact ih (fun later hlater => h later (List.mem_cons_of_mem step hlater)) _

end Alone

end Watch

namespace Sheet

/-- All attributes of the sheet are orderly. -/
def Orderly (sheet : Sheet) : Prop := ∀ entry ∈ sheet, entry.2.Orderly

variable {sheet later : Sheet}

/-- A change of one attribute keeps a sheet orderly if it keeps the attribute so. -/
theorem Orderly.modify (h : sheet.Orderly) (name : String) {change : Attribute → Attribute}
    (hchange : ∀ attr, attr.Orderly → (change attr).Orderly) :
    Orderly (Keyed.modify sheet name change) := by
  intro entry hentry
  rcases Keyed.mem_modify hentry with hmem | ⟨old, hold, heq⟩
  · exact h entry hmem
  · rw [heq]
    exact hchange old (h _ hold)

/-- An orderly attribute may be put in. -/
theorem Orderly.set (h : sheet.Orderly) {attr : Attribute} (hattr : attr.Orderly) (name : String) :
    Orderly (Keyed.set sheet name attr) := by
  intro entry hentry
  rcases Keyed.mem_set hentry with hmem | rfl
  · exact h entry hmem
  · exact hattr

/-- Storing keeps a sheet orderly. -/
theorem Orderly.store? (h : sheet.Orderly) {name : String} {atoms : List Atom} {force : Bool}
    (hstore : sheet.store? name atoms force = some later) : later.Orderly := by
  obtain rfl := store?_eq_some hstore
  exact h.modify name fun attr hattr => hattr.accept atoms

/-- Setting flags changes the flags of one attribute. -/
theorem setFlags?_eq_some {name : String} {flags : Flags} {on : Bool}
    (hset : sheet.setFlags? name flags on = some later) :
    ∃ attr updated, sheet.get? name = some attr ∧
      later = Keyed.set sheet name { attr with flags := updated } := by
  obtain ⟨attr, hattr, heq⟩ := Option.bind_eq_some_iff.mp hset
  obtain ⟨-, hlater⟩ := Option.ite_none_left_eq_some.mp heq
  exact ⟨attr, _, hattr, (Option.some.inj hlater).symm⟩

/-- It keeps a sheet orderly. -/
theorem Orderly.setFlags? (h : sheet.Orderly) {name : String} {flags : Flags} {on : Bool}
    (hset : sheet.setFlags? name flags on = some later) : later.Orderly := by
  obtain ⟨attr, updated, hattr, rfl⟩ := setFlags?_eq_some hset
  have horderly : attr.Orderly := h _ (Keyed.mem_of_get? hattr)
  have hupdated : ({ attr with flags := updated } : Attribute).Orderly := horderly.congr rfl rfl rfl rfl
  exact h.set hupdated name

end Sheet

namespace Watch

variable {L : Type} [DecidableEq L]

/-- Every step keeps a sheet orderly. -/
theorem Step.orderly {react : Reactions L} {step : Step L} {watch later : Watch L}
    (h : watch.sheet.Orderly) (hrun : step.run react watch = some later) : later.sheet.Orderly := by
  refine Step.keeps (fun h hstore => h.store? hstore) ?_ ?_ ?_ ?_ h hrun
  · exact fun declaration _ sheet hsheet => hsheet.set declaration.fresh_declared.2 _
  · exact fun name _ sheet hsheet entry hentry => hsheet entry (Keyed.mem_erase hentry)
  · exact fun name flags on _ sheet later hsheet hset => hsheet.setFlags? hset
  · exact fun sheet name on hsheet => hsheet.modify name fun attr hattr => hattr.freeze on

/-- Whatever is asked of an empty sheet, and whatever its listeners do in turn: the value, the default
and the snapshot of every attribute have the shape of its kind, and the attribute takes each of them in
as it is. The one exception are enumerations without items. -/
theorem steps_keep_values (react : Reactions L) (steps : List (Step L)) {watch : Watch L}
    (hrun : runAll react steps {} = some watch) :
    ∀ entry ∈ watch.sheet, entry.2.kind = .enum [] ∨
      entry.2.Stays entry.2.value ∧ entry.2.Stays entry.2.default ∧
        ∀ snapshot, entry.2.frozen? = some snapshot → entry.2.Stays snapshot := by
  have horderly : watch.sheet.Orderly :=
    of_foldlM (P := fun watch : Watch L => watch.sheet.Orderly)
      (fun step _ _ _ h hrun => Step.orderly h hrun) (by simp [Sheet.Orderly]) hrun
  intro entry hentry
  by_cases hitems : entry.2.kind = .enum []
  · exact Or.inl hitems
  · have hattr := horderly entry hentry
    exact Or.inr ⟨hattr.value hitems, hattr.default hitems, hattr.frozen hitems⟩

/-- An integer with limits that cross, and a size with a tied height. -/
def crossed : List (Step Unit) :=
  [.add ⟨"steps", .long, trivial, [.long 5], [.range 7.5 2.5]⟩,
    .add ⟨"box", .size, trivial, [], [.ratio 0.5, .min 10.0]⟩,
    .set "steps" [.double 9.5], .set "box" [.long 30], .freeze "box" true]

/-- The integer stays at the upper limit, and the size at its tied height. -/
theorem steps_keep_values_crossed :
    runAll (fun _ _ _ _ => []) crossed {} = some { sheet := crossed.foldl Step.alone [] } ∧
      ∀ entry ∈ crossed.foldl Step.alone [], entry.2.kind = .enum [] ∨
        entry.2.Stays entry.2.value ∧ entry.2.Stays entry.2.default ∧
          ∀ snapshot, entry.2.frozen? = some snapshot → entry.2.Stays snapshot :=
  have hrun : runAll (fun _ _ _ _ => []) crossed {} = some { sheet := crossed.foldl Step.alone [] } :=
    runAll_alone (by decide) []
  ⟨hrun, steps_keep_values (fun _ _ _ _ => []) crossed hrun⟩

end Watch

end Patchbay
