import Patchbay.Proofs.Attribute.Watching

/-!
# Steps with a record

What is asked of a watched sheet, and by its listeners in turn, with a log of all that happens in order:
attempts to change an attribute, the calls that each causes, and what it answers. A step with its log is
carried out as the step without.
-/

namespace Patchbay.Watch

/-- An attempt to change an attribute: its value, with or without regard to whether it is closed to
setting, or its flags. -/
inductive Attempt where
  | value (name : String) (atoms : List Atom) (force : Bool)
  | flags (name : String) (which : Flags) (on : Bool)

namespace Attempt

/-- The attribute that is to change. -/
def name : Attempt → String
  | .value name _ _ => name
  | .flags name _ _ => name

/-- What listeners are told if it does. -/
def change : Attempt → Change
  | .value .. => .value
  | .flags .. => .behavior

/-- The sheet with the change, if there is one. -/
def result? (sheet : Sheet) : Attempt → Option Sheet
  | .value name atoms force => sheet.store? name atoms force
  | .flags name which on => sheet.setFlags? name which on

/-- Decide whether listeners are told: of flags always, of a value unless the attribute is silent. -/
def told (sheet : Sheet) : Attempt → Bool
  | .value name _ _ => sheet.reports name
  | .flags .. => true

end Attempt

/-- What can happen. Of two attempts each is known by its place in the log. -/
inductive Event (L : Type) where
  | added (attr : Attribute)
  | removed (name : String)
  | froze (name : String) (on : Bool)
  | bound (listener : L) (names : List String)
  | unbound (listener : L)
  | tried (attempt : Attempt)
  | called (start : Nat) (call : Call L)
  | answered (start : Nat) (changed : Bool)

/-- A run with the log of its events. -/
structure Logged (L : Type) where
  run : Run L
  log : List (Event L) := []

variable {L : Type}

namespace Logged

/-- The run after one more event. -/
def note (logged : Logged L) (event : Event L) : Logged L :=
  { logged with log := logged.log ++ [event] }

/-- A listener is called. -/
def call (logged : Logged L) (start : Nat) (call : Call L) : Logged L where
  run := { logged.run with calls := logged.run.calls ++ [call] }
  log := logged.log ++ [.called start call]

/-- An event that changes the sheet. -/
def edit (logged : Logged L) (sheet : Sheet) (event : Event L) : Logged L where
  run := { logged.run with sheet }
  log := logged.log ++ [event]

mutual

/-- Announce the change from the attempt at `start` to a list of listeners. -/
def announce (watch : Watch L) (react : Reactions L) (depth start : Nat) (name : String)
    (change : Change) : List L → Logged L → Option (Logged L)
  | [], logged => some logged
  | listener :: rest, logged =>
    match depth with
    | 0 => none
    | depth + 1 =>
      let called := logged.call start ⟨listener, name, change, logged.run.sheet.value name⟩
      (storeAll watch react depth (react listener name change called.run) called).bind
        fun logged => announce watch react (depth + 1) start name change rest logged
termination_by listeners => (depth, 0, listeners.length)

/-- Store several values as a listener does. -/
def storeAll (watch : Watch L) (react : Reactions L) (depth : Nat) :
    List (String × List Atom) → Logged L → Option (Logged L)
  | [], logged => some logged
  | (name, atoms) :: rest, logged =>
    (undertake watch react depth (.value name atoms false) logged).bind
      fun (logged, _) => storeAll watch react depth rest logged
termination_by requests => (depth, 2, requests.length)

/-- Try to change an attribute and announce the change; the flag tells whether there was one. -/
def undertake (watch : Watch L) (react : Reactions L) (depth : Nat) (attempt : Attempt)
    (logged : Logged L) : Option (Logged L × Bool) :=
  let start := logged.log.length
  match attempt.result? logged.run.sheet with
  | none => some ((logged.note (.tried attempt)).note (.answered start false), false)
  | some sheet =>
    if attempt.told sheet then
      (announce watch react depth start attempt.name attempt.change (watch.targets attempt.name)
        (logged.edit sheet (.tried attempt))).map fun logged => (logged.note (.answered start true), true)
    else some ((logged.edit sheet (.tried attempt)).note (.answered start true), true)
termination_by (depth, 1, 0)

end

end Logged

/-- The default of an attribute; an undeclared one has none. -/
def defaultOf (sheet : Sheet) (name : String) : List Atom :=
  ((sheet.get? name).map Attribute.default).getD []

variable [DecidableEq L]

namespace Step

/-- Do what is asked, with answers as deep as the limit allows. Only steps that try to change one
attribute tell whether they did. -/
def outcome (react : Reactions L) (limit : Nat) (watch : Watch L) : Step L → Option (Outcome L)
  | .set name atoms => watch.set react name atoms limit
  | .reset name => watch.reset react name limit
  | .resetAll => watch.resetAll react limit
  | .setFlags name flags on => watch.setFlags react name flags on limit
  | .restore dico all => watch.restore react dico all limit
  | .add declaration => some ⟨{ watch with sheet := watch.sheet.add declaration.declared }, [], false⟩
  | .remove name => some ⟨{ watch with sheet := Keyed.erase watch.sheet name }, [], false⟩
  | .freeze name on => some ⟨{ watch with sheet := watch.sheet.freeze name on }, [], false⟩
  | .bind listener names => some ⟨watch.bind listener names, [], false⟩
  | .unbind listener => some ⟨watch.unbind listener, [], false⟩

/-- The one attempt of a step that tells whether it changed an attribute. -/
def attempt? (sheet : Sheet) : Step L → Option Attempt
  | .set name atoms => some (.value name atoms false)
  | .reset name => some (.value name (defaultOf sheet name) true)
  | .setFlags name flags on => some (.flags name flags on)
  | _ => none

/-- Make one attempt and log it. -/
def logAttempt (react : Reactions L) (limit : Nat) (watch : Watch L) (log : List (Event L))
    (attempt : Attempt) : Option (Outcome L × List (Event L)) :=
  (Logged.undertake watch react limit attempt ⟨watch.start, log⟩).map
    fun (logged, changed) => (watch.outcome (logged.run, changed), logged.log)

/-- Go back to the default of one of several attributes and log it. -/
def logReset (react : Reactions L) (limit : Nat) (watch : Watch L) (logged : Logged L) (name : String) :
    Option (Logged L) :=
  (logged.undertake watch react limit (.value name (defaultOf logged.run.sheet name) true)).map Prod.fst

/-- Restore one of several attributes and log it. -/
def logRestore (react : Reactions L) (limit : Nat) (watch : Watch L) (dico : Dico) (logged : Logged L)
    (name : String) : Option (Logged L) :=
  (logged.undertake watch react limit (.value name (dico.get name) true)).map fun (logged, _) =>
    if (Sheet.frozenNames dico).contains name then
      logged.edit (logged.run.sheet.freeze name true) (.froze name true)
    else logged

/-- Do what is asked and log it. -/
def logged (react : Reactions L) (limit : Nat) (watch : Watch L) (log : List (Event L)) :
    Step L → Option (Outcome L × List (Event L))
  | .set name atoms => logAttempt react limit watch log (.value name atoms false)
  | .reset name => logAttempt react limit watch log (.value name (defaultOf watch.sheet name) true)
  | .setFlags name flags on => logAttempt react limit watch log (.flags name flags on)
  | .resetAll =>
    (watch.sheet.keys.foldlM (logReset react limit watch) ⟨watch.start, log⟩).map
      fun logged => (watch.outcome (logged.run, true), logged.log)
  | .restore dico all =>
    ((watch.sheet.restored dico all).foldlM (logRestore react limit watch dico) ⟨watch.start, log⟩).map
      fun logged => (watch.outcome (logged.run, true), logged.log)
  | .add declaration =>
    some (⟨{ watch with sheet := watch.sheet.add declaration.declared }, [], false⟩,
      log ++ [.added declaration.declared])
  | .remove name =>
    some (⟨{ watch with sheet := Keyed.erase watch.sheet name }, [], false⟩, log ++ [.removed name])
  | .freeze name on =>
    some (⟨{ watch with sheet := watch.sheet.freeze name on }, [], false⟩, log ++ [.froze name on])
  | .bind listener names => some (⟨watch.bind listener names, [], false⟩, log ++ [.bound listener names])
  | .unbind listener => some (⟨watch.unbind listener, [], false⟩, log ++ [.unbound listener])

end Step

/-- A history of steps, each with what listeners do in it. -/
abbrev History (L : Type) := List (Reactions L × Step L)

/-- Do what is asked, one step after the other. -/
def History.run (limit : Nat) (history : History L) (watch : Watch L) : Option (Watch L) :=
  history.foldlM (fun watch entry => (entry.2.outcome entry.1 limit watch).map Outcome.watch) watch

/-- Do what is asked and log it, one step after the other. -/
def History.logged (limit : Nat) (history : History L) (start : Watch L × List (Event L)) :
    Option (Watch L × List (Event L)) :=
  history.foldlM (fun state entry =>
    (entry.2.logged entry.1 limit state.1 state.2).map fun result => (result.1.watch, result.2)) start

/-! ### The log does not matter to the steps -/

namespace Logged

omit [DecidableEq L]

variable {watch : Watch L} {react : Reactions L}

section Depth

variable {depth : Nat}

theorem storeAll_run
    (hundertake : ∀ name atoms logged,
      (undertake watch react depth (.value name atoms false) logged).map
        (fun result => (result.1.run, result.2)) =
          Watch.attempt watch react depth name atoms false logged.run)
    (requests : List (String × List Atom)) (logged : Logged L) :
    (storeAll watch react depth requests logged).map run =
      Watch.storeAll watch react depth requests logged.run := by
  induction requests generalizing logged with
  | nil => rw [storeAll, Watch.storeAll, Option.map_some]
  | cons request rest ih =>
    rw [storeAll, Watch.storeAll, ← hundertake, Option.map_bind, Option.bind_map]
    congr 1
    funext result
    exact ih result.1

theorem announce_run
    (hstore : ∀ requests logged, (storeAll watch react depth requests logged).map run =
      Watch.storeAll watch react depth requests logged.run)
    (start : Nat) (name : String) (change : Change) (listeners : List L) (logged : Logged L) :
    (announce watch react (depth + 1) start name change listeners logged).map run =
      Watch.announce watch react (depth + 1) name change listeners logged.run := by
  induction listeners generalizing logged with
  | nil => rw [announce, Watch.announce, Option.map_some]
  | cons listener rest ih =>
    have hstored := hstore (react listener name change
        (logged.call start ⟨listener, name, change, logged.run.sheet.value name⟩).run)
      (logged.call start ⟨listener, name, change, logged.run.sheet.value name⟩)
    rw [announce, Watch.announce]
    dsimp only [call] at hstored ⊢
    rw [← hstored, Option.map_bind, Option.bind_map]
    congr 1
    funext later
    exact ih later

end Depth

/-- What an attempt does to a run, without a log. -/
def undertaken (watch : Watch L) (react : Reactions L) (depth : Nat) (attempt : Attempt) (run : Run L) :
    Option (Run L × Bool) :=
  match attempt.result? run.sheet with
  | none => some (run, false)
  | some sheet =>
    if attempt.told sheet then
      (Watch.announce watch react depth attempt.name attempt.change (watch.targets attempt.name)
        { run with sheet }).map fun run => (run, true)
    else some ({ run with sheet }, true)

theorem attempt_eq (depth : Nat) (name : String) (atoms : List Atom) (force : Bool) (run : Run L) :
    Watch.attempt watch react depth name atoms force run =
      undertaken watch react depth (.value name atoms force) run := by
  rw [Watch.attempt]
  rfl

theorem undertake_run_of_announce {depth : Nat}
    (hannounce : ∀ start name change listeners logged,
      (announce watch react depth start name change listeners logged).map run =
        Watch.announce watch react depth name change listeners logged.run)
    (attempt : Attempt) (logged : Logged L) :
    (undertake watch react depth attempt logged).map (fun result => (result.1.run, result.2)) =
      undertaken watch react depth attempt logged.run := by
  rw [undertake, undertaken]
  cases attempt.result? logged.run.sheet with
  | none => rfl
  | some sheet =>
    dsimp only
    by_cases htold : attempt.told sheet = true
    · have hannounced := hannounce logged.log.length attempt.name attempt.change
        (watch.targets attempt.name) (logged.edit sheet (.tried attempt))
      dsimp only [edit] at hannounced ⊢
      rw [if_pos htold, if_pos htold, ← hannounced, Option.map_map, Option.map_map]
      rfl
    · rw [if_neg htold, if_neg htold]
      rfl

/-- An attempt with a log is the attempt without, at every depth. -/
theorem undertake_run (depth : Nat) (attempt : Attempt) (logged : Logged L) :
    (undertake watch react depth attempt logged).map (fun result => (result.1.run, result.2)) =
      undertaken watch react depth attempt logged.run := by
  induction depth generalizing attempt logged with
  | zero =>
    apply undertake_run_of_announce
    intro start name change listeners logged
    cases listeners with
    | nil => rw [announce, Watch.announce, Option.map_some]
    | cons listener rest => rw [announce, Watch.announce, Option.map_none]
  | succ depth ih =>
    apply undertake_run_of_announce
    intro start name change listeners logged
    apply announce_run
    intro requests logged
    apply storeAll_run
    intro name atoms logged
    rw [ih, attempt_eq]

/-- What carries over to the log at every item carries over to a fold. -/
theorem foldlM_run {α β : Type} (finish : Run L → β) {step : Run L → α → Option (Run L)}
    {logging : Logged L → α → Option (Logged L)}
    (h : ∀ logged item, (logging logged item).map run = step logged.run item) (items : List α)
    (logged : Logged L) : (items.foldlM logging logged).map (fun logged => finish logged.run) =
      (items.foldlM step logged.run).map finish := by
  induction items generalizing logged with
  | nil => rfl
  | cons item items ih =>
    rw [List.foldlM_cons, List.foldlM_cons, ← h]
    cases logging logged item with
    | none => rfl
    | some later => exact ih later

end Logged

namespace Step

variable {react : Reactions L} {limit : Nat} {watch : Watch L} {log : List (Event L)}

omit [DecidableEq L] in
theorem logAttempt_outcome (attempt : Attempt) :
    (logAttempt react limit watch log attempt).map Prod.fst =
      (Logged.undertaken watch react limit attempt watch.start).map watch.outcome := by
  rw [logAttempt, Option.map_map, ← Logged.undertake_run limit attempt ⟨watch.start, log⟩, Option.map_map]
  rfl

section Each

omit [DecidableEq L]

variable (react limit watch)

/-- Going back to the default of an attribute that is not there changes nothing. -/
theorem attempt_undeclared {run : Run L} {name : String} (h : run.sheet.get? name = none) :
    Watch.attempt watch react limit name (defaultOf run.sheet name) true run = some (run, false) := by
  rw [Watch.attempt, Sheet.store?, h]
  rfl

theorem logReset_run (logged : Logged L) (name : String) :
    (logReset react limit watch logged name).map Logged.run =
      match logged.run.sheet.get? name with
      | none => some logged.run
      | some attr => (put watch react name attr.default true logged.run limit).map Prod.fst := by
  have hfst : (logReset react limit watch logged name).map Logged.run =
      (Watch.attempt watch react limit name (defaultOf logged.run.sheet name) true logged.run).map
        Prod.fst := by
    rw [logReset, Logged.attempt_eq, ← Logged.undertake_run, Option.map_map, Option.map_map]
    rfl
  rw [hfst]
  cases hfound : logged.run.sheet.get? name with
  | none =>
    rw [attempt_undeclared react limit watch hfound]
    rfl
  | some attr =>
    rw [defaultOf, hfound]
    rfl

theorem logRestore_run (dico : Dico) (logged : Logged L) (name : String) :
    (logRestore react limit watch dico logged name).map Logged.run =
      (put watch react name (dico.get name) true logged.run limit).map fun (run, _) =>
        if (Sheet.frozenNames dico).contains name then
          { run with sheet := run.sheet.freeze name true }
        else run := by
  rw [logRestore, put, Logged.attempt_eq, ← Logged.undertake_run, Option.map_map, Option.map_map]
  congr 1
  funext result
  dsimp only [Function.comp]
  split <;> rfl

end Each

/-- A step with a log is the step without. -/
theorem logged_outcome (step : Step L) :
    (step.logged react limit watch log).map Prod.fst = step.outcome react limit watch := by
  cases step with
  | add | remove | freeze | bind | unbind => rfl
  | set name atoms =>
    rw [logged, logAttempt_outcome, ← Logged.attempt_eq]
    rfl
  | reset name =>
    rw [logged, logAttempt_outcome, ← Logged.attempt_eq, outcome, Watch.reset]
    cases hfound : watch.sheet.get? name with
    | none =>
      have hstart : watch.start.sheet.get? name = none := hfound
      exact congrArg (Option.map watch.outcome) (attempt_undeclared react limit watch hstart)
    | some attr =>
      rw [defaultOf, hfound]
      rfl
  | setFlags name flags on =>
    rw [logged, logAttempt_outcome, outcome, Watch.setFlags, Logged.undertaken]
    change Option.map _ (match watch.sheet.setFlags? name flags on with | none => _ | some sheet => _) = _
    cases watch.sheet.setFlags? name flags on with
    | none => rfl
    | some sheet => exact Option.map_map ..
  | resetAll =>
    rw [logged, outcome, Watch.resetAll, Option.map_map]
    exact Logged.foldlM_run (fun run => watch.outcome (run, true)) (logReset_run react limit watch) _ _
  | restore dico all =>
    rw [logged, outcome, Watch.restore, Option.map_map]
    exact Logged.foldlM_run (fun run => watch.outcome (run, true)) (logRestore_run react limit watch dico)
      _ _

end Step

/-- A history with a log is the history without, and has a result whenever that has one. -/
theorem History.logged_run (limit : Nat) (history : History L) (start : Watch L × List (Event L)) :
    (history.logged limit start).map Prod.fst = history.run limit start.1 := by
  induction history generalizing start with
  | nil => rfl
  | cons entry history ih =>
    have hstep : (entry.2.logged entry.1 limit start.1 start.2).map Prod.fst =
        entry.2.outcome entry.1 limit start.1 := Step.logged_outcome entry.2
    rw [History.logged, History.run, List.foldlM_cons, List.foldlM_cons, ← hstep]
    cases entry.2.logged entry.1 limit start.1 start.2 with
    | none => rfl
    | some result => exact ih _

end Patchbay.Watch
