import Patchbay.Proofs.Attribute.Record
import Patchbay.Proofs.Roll
import Patchbay.Proofs.Span

/-!
# Who is told of a change

Listeners set attributes while they are being told of a change, so the calls of one change lie between
those of another. In the log of a history every attempt to change an attribute has its own calls and its
own answer. These go by the sheet and the listeners at that moment alone: an attempt that changes nothing
calls nobody, and one that does calls each listener that asked for the attribute once.
-/

namespace Patchbay.Watch

variable {L : Type}

namespace Attempt

/-- An attempt makes one sheet of another. A value is stored if the attribute is there, is open to
setting or is not asked to be, takes the atoms in, and does not hold their value already. Flags are set if
that changes any. -/
def Makes (sheet later : Sheet) : Attempt → Prop
  | .value name atoms force => ∃ attr value, sheet.get? name = some attr ∧
      (force = false → attr.flags.disabled = false) ∧ attr.conform atoms = some value ∧
        Atom.unchangedList value attr.value = false ∧ later = sheet.set name { attr with value }
  | .flags name which on => ∃ attr flags, sheet.get? name = some attr ∧
      flags = (if on then attr.flags.union which else attr.flags.difference which) ∧
        flags ≠ attr.flags ∧ later = sheet.set name { attr with flags }

theorem result?_eq_some_iff {sheet later : Sheet} {attempt : Attempt} :
    attempt.result? sheet = some later ↔ attempt.Makes sheet later := by
  cases attempt with
  | value name atoms force =>
    simp only [result?, Sheet.store?, Makes, Option.bind_eq_some_iff]
    constructor
    · rintro ⟨attr, hattr, h⟩
      split at h
      · cases h
      next hopen =>
      obtain ⟨value, hvalue, h⟩ := Option.bind_eq_some_iff.mp h
      split at h
      · cases h
      next hchanged =>
      refine ⟨attr, value, hattr, ?_, hvalue, Bool.eq_false_iff.mpr hchanged, (Option.some.inj h).symm⟩
      rintro rfl
      simpa using hopen
    · rintro ⟨attr, value, hattr, hopen, hvalue, hchanged, rfl⟩
      refine ⟨attr, hattr, ?_⟩
      have hdisabled : (!force && attr.flags.disabled) = false := by
        cases force with
        | true => rfl
        | false => exact hopen rfl
      rw [hdisabled, hvalue]
      simp [hchanged]
  | flags name which on =>
    simp only [result?, Sheet.setFlags?, Makes, Option.bind_eq_some_iff]
    constructor
    · rintro ⟨attr, hattr, h⟩
      generalize hflags : (if on then attr.flags.union which else attr.flags.difference which) = flags at h
      obtain ⟨hchanged, heq⟩ := Option.ite_none_left_eq_some.mp h
      exact ⟨attr, flags, hattr, hflags.symm, hchanged, (Option.some.inj heq).symm⟩
    · rintro ⟨attr, flags, hattr, rfl, hchanged, rfl⟩
      exact ⟨attr, hattr, if_neg hchanged⟩

theorem result?_eq_none_iff {sheet : Sheet} {attempt : Attempt} :
    attempt.result? sheet = none ↔ ∀ later, ¬ attempt.Makes sheet later := by
  simp only [← result?_eq_some_iff, Option.eq_none_iff_forall_ne_some, ne_eq]

end Attempt

namespace Event

/-- What an event makes of a sheet. -/
def replay (sheet : Sheet) : Event L → Sheet
  | .added attr => sheet.add attr
  | .removed name => Keyed.erase sheet name
  | .froze name on => sheet.freeze name on
  | .tried attempt => (attempt.result? sheet).getD sheet
  | _ => sheet

/-- What a listener is told at an event. -/
def call? : Event L → Option (Call L)
  | .called _ call => some call
  | _ => none

/-- Which call an event is for the attempt at a place. -/
def callFrom? (start : Nat) : Event L → Option (Call L)
  | .called origin call => if origin = start then some call else none
  | _ => none

/-- Which answer an event is to the attempt at a place. -/
def answerTo? (start : Nat) : Event L → Option Bool
  | .answered origin changed => if origin = start then some changed else none
  | _ => none

/-- Attempts as spans of the log. -/
def attempts : Spans (Event L) Attempt (Call L) Bool where
  begins?
    | .tried attempt => some attempt
    | _ => none
  does? := callFrom?
  ends? := answerTo?

/-- Who gets on the list of listeners, and who off it. A listener that is gone counts as unbound. -/
def listeners : RollRule (Event L) L where
  joins event listener := ∃ names, event = .bound listener names
  leaves event listener := event = .unbound listener

/-- Which names a listener asks for: those of the last time that it was bound. -/
def askings : RollRule (Event L) (Binding L) where
  joins event binding := event = .bound binding.listener binding.names
  leaves event binding :=
    event = .unbound binding.listener ∨ ∃ names, event = .bound binding.listener names

end Event

open Event

/-- The sheet that a log leads to. -/
def sheetAfter (log : List (Event L)) : Sheet := log.foldl replay []

/-- The listeners that a log leads to: each once, in the order of the first time that it was bound
without having been unbound since, and with the names that it asked for the last time. -/
structure Bound (log : List (Event L)) (bindings : List (Binding L)) : Prop where
  roll : listeners.Roll log (bindings.map Binding.listener)
  latest : ∀ binding ∈ bindings, ∃ i, askings.Stands log binding i

/-- The law of an attempt. If it changes the sheet it answers so, and calls each listener that asked for
the attribute, or for all, once and in order, unless the attribute is silent and its value is what
changes. If not it answers so, leaves the sheet as it is and calls nobody. -/
def Tells (before : List (Event L)) (attempt : Attempt) (calls : List (Call L)) (answers : List Bool) :
    Prop :=
  ∃ bindings, Bound before bindings ∧
    ((∃ later, attempt.Makes (sheetAfter before) later ∧
        sheetAfter (before ++ [.tried attempt]) = later ∧ answers = [true] ∧
        calls.map (fun call => (call.listener, call.name, call.change)) =
          if attempt.told later then
            (bindings.filter fun binding => binding.names = [] ∨ attempt.name ∈ binding.names).map
              fun binding => (binding.listener, attempt.name, attempt.change)
          else []) ∨
      (∀ later, ¬ attempt.Makes (sheetAfter before) later) ∧
        sheetAfter (before ++ [.tried attempt]) = sheetAfter before ∧ answers = [false] ∧ calls = [])

/-! ### Listeners that come and go -/

section Bound

open RollRule

variable {log : List (Event L)} {bindings : List (Binding L)} {event : Event L}

theorem bound_empty : Bound ([] : List (Event L)) [] where
  roll := Roll.empty fun _ hevent => absurd hevent List.not_mem_nil
  latest _ hbinding := absurd hbinding List.not_mem_nil

/-- An event that is about no listener. -/
theorem Bound.idle (h : Bound log bindings) (hbound : ∀ listener names, event ≠ .bound listener names)
    (hunbound : ∀ listener, event ≠ .unbound listener) : Bound (log ++ [event]) bindings where
  roll := by
    apply h.roll.idle
    · rintro listener ⟨names, heq⟩
      exact hbound listener names heq
    · exact hunbound
  latest binding hbinding := by
    obtain ⟨i, hstands⟩ := h.latest binding hbinding
    refine ⟨i, stands_concat.mpr (Or.inl ⟨hstands, ?_⟩)⟩
    rintro (heq | ⟨names, heq⟩)
    · exact hunbound _ heq
    · exact hbound _ names heq

variable [DecidableEq L]

theorem Bound.unbind {watch : Watch L} (h : Bound log watch.bindings) (listener : L) :
    Bound (log ++ [.unbound listener]) (watch.unbind listener).bindings where
  roll := by
    have hfilter : (watch.unbind listener).bindings.map Binding.listener =
        (watch.bindings.map Binding.listener).filter fun other => other ≠ listener := by
      rw [List.filter_map]
      rfl
    rw [hfilter]
    apply h.roll.leave
    · simp [listeners]
    · simp [listeners, @eq_comm _ listener]
  latest binding hbinding := by
    obtain ⟨hbinding, hne⟩ := List.mem_filter.mp hbinding
    obtain ⟨i, hstands⟩ := h.latest binding hbinding
    refine ⟨i, stands_concat.mpr (Or.inl ⟨hstands, ?_⟩)⟩
    rintro (heq | ⟨names, heq⟩)
    · exact of_decide_eq_true hne (Event.unbound.inj heq).symm
    · cases heq

/-- Being bound again is to keep one's place and to ask for other names. -/
theorem listeners_bind (watch : Watch L) (listener : L) (names : List String) :
    (watch.bind listener names).bindings.map Binding.listener =
      if listener ∈ watch.bindings.map Binding.listener then watch.bindings.map Binding.listener
      else watch.bindings.map Binding.listener ++ [listener] := by
  have hiff : (watch.bindings.any fun binding => binding.listener = listener) = true ↔
      listener ∈ watch.bindings.map Binding.listener := by simp
  unfold Watch.bind
  by_cases hin : listener ∈ watch.bindings.map Binding.listener
  · rw [if_pos (hiff.mpr hin), if_pos hin, List.map_map]
    apply List.map_congr_left
    intro binding _
    dsimp only [Function.comp]
    split <;> rfl
  · rw [if_neg (mt hiff.mp hin), if_neg hin, List.map_append]
    rfl

theorem mem_bind {watch : Watch L} {listener : L} {names : List String} {binding : Binding L}
    (h : binding ∈ (watch.bind listener names).bindings) :
    binding = ⟨listener, names⟩ ∨ binding ∈ watch.bindings ∧ binding.listener ≠ listener := by
  unfold Watch.bind at h
  split at h
  · obtain ⟨old, hold, rfl⟩ := List.mem_map.mp h
    split
    next heq => exact Or.inl (by rw [← heq])
    next hne => exact Or.inr ⟨hold, hne⟩
  next hnone =>
  rcases List.mem_append.mp h with hold | hnew
  · refine Or.inr ⟨hold, fun heq => hnone ?_⟩
    exact List.any_eq_true.mpr ⟨binding, hold, decide_eq_true heq⟩
  · exact Or.inl (List.mem_singleton.mp hnew)

theorem sheet_bind (watch : Watch L) (listener : L) (names : List String) :
    (watch.bind listener names).sheet = watch.sheet := by
  unfold Watch.bind
  split <;> rfl

theorem Bound.bind {watch : Watch L} (h : Bound log watch.bindings) (listener : L)
    (names : List String) :
    Bound (log ++ [.bound listener names]) (watch.bind listener names).bindings where
  roll := by
    rw [listeners_bind]
    apply h.roll.join
    · simp [listeners, @eq_comm _ listener]
    · simp [listeners]
  latest binding hbinding := by
    rcases mem_bind hbinding with rfl | ⟨hold, hne⟩
    · exact ⟨log.length, stands_concat.mpr (Or.inr ⟨rfl, rfl⟩)⟩
    · obtain ⟨i, hstands⟩ := h.latest binding hold
      refine ⟨i, stands_concat.mpr (Or.inl ⟨hstands, ?_⟩)⟩
      rintro (heq | ⟨others, heq⟩)
      · cases heq
      · exact hne (Event.bound.inj heq).1.symm

end Bound

/-! ### What one event does -/

namespace Logged

open Spans

/-- The log tells the sheet and the listeners. -/
structure Faithful (watch : Watch L) (logged : Logged L) : Prop where
  sheet : sheetAfter logged.log = logged.run.sheet
  bound : Bound logged.log watch.bindings

/-- What a stretch of a run does: it keeps the log faithful and adds to it, with all calls. -/
structure Leads (watch : Watch L) (logged later : Logged L) (start : Nat) (calls : List (Call L))
    (answers : List Bool) : Prop where
  faithful : Faithful watch later
  adds : ∃ stretch, later.log = logged.log ++ stretch ∧
    later.run.calls = logged.run.calls ++ stretch.filterMap call? ∧
      attempts.Continues Tells logged.log stretch start calls answers

variable {watch : Watch L} {logged later last : Logged L} {start : Nat} {calls others : List (Call L)}
  {answers ends : List Bool} {event : Event L}

theorem Leads.refl (h : Faithful watch logged) (start : Nat) : Leads watch logged logged start [] [] :=
  ⟨h, [], (List.append_nil _).symm, (List.append_nil _).symm, Continues.nil _ _⟩

theorem Leads.trans (h : Leads watch logged later start calls answers)
    (hlast : Leads watch later last start others ends)
    (hstart : start < logged.log.length ∨ others = [] ∧ ends = []) :
    Leads watch logged last start (calls ++ others) (answers ++ ends) := by
  obtain ⟨stretch, hlog, hcalls, hfirst⟩ := h.adds
  obtain ⟨more, hmore, hothers, hsecond⟩ := hlast.adds
  rw [hlog] at hsecond
  refine ⟨hlast.faithful, stretch ++ more, ?_, ?_, hfirst.append hsecond hstart⟩
  · rw [hmore, hlog, List.append_assoc]
  · rw [hothers, hcalls, List.filterMap_append, List.append_assoc]

theorem sheetAfter_concat (log : List (Event L)) (event : Event L) :
    sheetAfter (log ++ [event]) = replay (sheetAfter log) event := by
  rw [sheetAfter, List.foldl_append]
  rfl

theorem Faithful.next (h : Faithful watch logged) {run : Run L}
    (hsheet : run.sheet = replay logged.run.sheet event)
    (hbound : ∀ listener names, event ≠ .bound listener names)
    (hunbound : ∀ listener, event ≠ .unbound listener) :
    Faithful watch ⟨run, logged.log ++ [event]⟩ where
  sheet := by rw [sheetAfter_concat, h.sheet, hsheet]
  bound := h.bound.idle hbound hunbound

/-- A listener is called. -/
theorem Leads.call (h : Faithful watch logged) (hstart : start < logged.log.length) (call : Call L) :
    Leads watch logged (logged.call start call) start [call] [] := by
  refine ⟨h.next rfl (by simp) (by simp), [.called start call], rfl, rfl,
    Continues.single rfl ?_ ?_ (Or.inl hstart)⟩
  · intro origin
    by_cases heq : start = origin <;> simp [attempts, callFrom?, heq, @eq_comm _ origin]
  · simp [attempts, answerTo?]

/-- An attempt is answered. -/
theorem Leads.answer (h : Faithful watch logged) (start : Nat) (changed : Bool) :
    Leads watch logged (logged.note (.answered start changed)) start [] [changed] := by
  refine ⟨h.next rfl (by simp) (by simp), [.answered start changed], rfl, (List.append_nil _).symm,
    Continues.single rfl ?_ ?_ (Or.inr rfl)⟩
  · simp [attempts, callFrom?]
  · intro origin
    by_cases heq : start = origin <;> simp [attempts, answerTo?, heq, @eq_comm _ origin]

/-- A snapshot is kept. -/
theorem Leads.freeze (h : Faithful watch logged) (name : String) (on : Bool) (start : Nat) :
    Leads watch logged (logged.edit (logged.run.sheet.freeze name on) (.froze name on)) start [] [] :=
  ⟨h.next rfl (by simp) (by simp), [.froze name on], rfl, (List.append_nil _).symm,
    Continues.idle rfl (fun _ => rfl) (fun _ => rfl) start⟩

/-- An attempt, from its beginning to its answer. -/
theorem Leads.whole {attempt : Attempt} {sheet : Sheet} (hlaw : Tells logged.log attempt calls answers)
    (h : Leads watch (logged.edit sheet (.tried attempt)) later logged.log.length calls answers)
    (start : Nat) : Leads watch logged later start [] [] := by
  obtain ⟨stretch, hlog, hcalls, hcontinues⟩ := h.adds
  refine ⟨h.faithful, .tried attempt :: stretch, ?_, ?_,
    Continues.whole rfl (fun _ => rfl) (fun _ => rfl) hlaw hcontinues start⟩
  · rw [hlog, edit, List.append_assoc]
    rfl
  · rw [List.filterMap_cons_none rfl, hcalls]
    rfl

/-! ### What attempts do -/

variable {react : Reactions L}

section Depth

variable {depth : Nat}

/-- What a listener sets in turn leaves the calls that are under way as they are. -/
theorem storeAll_leads
    (hundertake : ∀ {attempt} {logged : Logged L} {result} (start : Nat), Faithful watch logged →
      undertake watch react depth attempt logged = some result →
      Leads watch logged result.1 start [] [])
    {requests : List (String × List Atom)} {logged later : Logged L} (h : Faithful watch logged)
    (hrun : storeAll watch react depth requests logged = some later) (start : Nat) :
    Leads watch logged later start [] [] := by
  induction requests generalizing logged with
  | nil =>
    rw [storeAll] at hrun
    obtain rfl := Option.some.inj hrun
    exact Leads.refl h start
  | cons request rest ih =>
    rw [storeAll] at hrun
    obtain ⟨result, hresult, hrest⟩ := Option.bind_eq_some_iff.mp hrun
    have hfirst := hundertake start h hresult
    exact hfirst.trans (ih hfirst.faithful hrest) (Or.inr ⟨rfl, rfl⟩)

/-- A change is told to one listener after the other, whatever each of them sets in turn. -/
theorem announce_leads
    (hstore : ∀ {requests} {logged later : Logged L} (start : Nat), Faithful watch logged →
      storeAll watch react depth requests logged = some later → Leads watch logged later start [] [])
    {start : Nat} {name : String} {change : Change} {listeners : List L} {logged later : Logged L}
    (h : Faithful watch logged) (hstart : start < logged.log.length)
    (hrun : announce watch react (depth + 1) start name change listeners logged = some later) :
    ∃ calls, calls.map (fun call => (call.listener, call.name, call.change)) =
        listeners.map (fun listener => (listener, name, change)) ∧
      Leads watch logged later start calls [] := by
  induction listeners generalizing logged with
  | nil =>
    rw [announce] at hrun
    obtain rfl := Option.some.inj hrun
    exact ⟨[], rfl, Leads.refl h start⟩
  | cons listener rest ih =>
    rw [announce] at hrun
    obtain ⟨answered, hanswered, hrest⟩ := Option.bind_eq_some_iff.mp hrun
    have hcalled := Leads.call h hstart ⟨listener, name, change, logged.run.sheet.value name⟩
    have hfirst := hcalled.trans (hstore start hcalled.faithful hanswered) (Or.inr ⟨rfl, rfl⟩)
    have hlength : start < answered.log.length := by
      obtain ⟨stretch, hlog, -⟩ := hfirst.adds
      rw [hlog, List.length_append]
      exact Nat.lt_add_right _ hstart
    obtain ⟨calls, hcalls, hlast⟩ := ih hfirst.faithful hlength hrest
    refine ⟨_, ?_, hfirst.trans hlast (Or.inl hstart)⟩
    rw [List.map_append, hcalls]
    rfl

/-- Those who are told are those who asked for the attribute, or for all. -/
theorem map_targets {β : Type} (watch : Watch L) (name : String) (f : L → β) :
    (watch.targets name).map f =
      (watch.bindings.filter fun binding => binding.names = [] ∨ name ∈ binding.names).map
        fun binding => f binding.listener := by
  rw [targets, List.map_map]
  congr 2
  funext binding
  cases hnames : binding.names <;> simp [wants, hnames]

/-- An attempt obeys the law if its change is told to everybody. -/
theorem undertake_tells
    (hannounce : ∀ {start name change listeners} {logged later : Logged L}, Faithful watch logged →
      start < logged.log.length →
      announce watch react depth start name change listeners logged = some later →
      ∃ calls, calls.map (fun call => (call.listener, call.name, call.change)) =
          listeners.map (fun listener => (listener, name, change)) ∧
        Leads watch logged later start calls [])
    {attempt : Attempt} {logged : Logged L} {result : Logged L × Bool} (h : Faithful watch logged)
    (hrun : undertake watch react depth attempt logged = some result) :
    ∃ sheet calls, Tells logged.log attempt calls [result.2] ∧
      Leads watch (logged.edit sheet (.tried attempt)) result.1 logged.log.length calls [result.2] := by
  rw [undertake] at hrun
  have htried : ∀ sheet, (attempt.result? logged.run.sheet).getD logged.run.sheet = sheet →
      Faithful watch (logged.edit sheet (.tried attempt)) := by
    rintro sheet rfl
    exact h.next rfl (by simp) (by simp)
  have hsheet : sheetAfter (logged.log ++ [.tried attempt]) =
      (attempt.result? logged.run.sheet).getD logged.run.sheet := by
    rw [sheetAfter_concat, h.sheet, replay]
  cases hresult : attempt.result? logged.run.sheet with
  | none =>
    simp only [hresult] at hrun htried hsheet
    obtain rfl := Option.some.inj hrun
    have hnone : ∀ later, ¬ attempt.Makes (sheetAfter logged.log) later := by
      rw [h.sheet]
      exact Attempt.result?_eq_none_iff.mp hresult
    refine ⟨logged.run.sheet, [], ⟨watch.bindings, h.bound, Or.inr ⟨hnone, ?_, rfl, rfl⟩⟩,
      Leads.answer (htried _ rfl) _ false⟩
    rw [hsheet, h.sheet]
    rfl
  | some sheet =>
    simp only [hresult] at hrun htried hsheet
    have hmakes : attempt.Makes (sheetAfter logged.log) sheet := by
      rw [h.sheet]
      exact Attempt.result?_eq_some_iff.mp hresult
    have hbefore : logged.log.length < (logged.log ++ [Event.tried attempt]).length := by simp
    split at hrun
    next htold =>
      obtain ⟨announced, hannounced, rfl⟩ := Option.map_eq_some_iff.mp hrun
      obtain ⟨calls, hcalls, hleads⟩ := hannounce (htried sheet rfl) hbefore hannounced
      have hbody := hleads.trans (Leads.answer hleads.faithful _ true) (Or.inl hbefore)
      rw [List.append_nil] at hbody
      refine ⟨sheet, calls, ⟨watch.bindings, h.bound, Or.inl ⟨sheet, hmakes, hsheet, rfl, ?_⟩⟩, hbody⟩
      rw [if_pos htold, hcalls, map_targets]
    next hsilent =>
      obtain rfl := Option.some.inj hrun
      refine ⟨sheet, [], ⟨watch.bindings, h.bound, Or.inl ⟨sheet, hmakes, hsheet, rfl, ?_⟩⟩,
        Leads.answer (htried sheet rfl) _ true⟩
      rw [if_neg hsilent]
      rfl

end Depth

/-- Every attempt obeys the law, at every depth. -/
theorem undertake_leads {depth : Nat} {attempt : Attempt} {logged : Logged L}
    {result : Logged L × Bool} (h : Faithful watch logged)
    (hrun : undertake watch react depth attempt logged = some result) :
    ∃ sheet calls, Tells logged.log attempt calls [result.2] ∧
      Leads watch (logged.edit sheet (.tried attempt)) result.1 logged.log.length calls [result.2] := by
  induction depth generalizing attempt logged result with
  | zero =>
    refine undertake_tells ?_ h hrun
    intro start name change listeners logged later hfaithful _ hannounced
    cases listeners with
    | nil =>
      rw [announce] at hannounced
      obtain rfl := Option.some.inj hannounced
      exact ⟨[], rfl, Leads.refl hfaithful start⟩
    | cons listener rest =>
      rw [announce] at hannounced
      cases hannounced
  | succ depth ih =>
    refine undertake_tells ?_ h hrun
    intro start name change listeners logged later hfaithful hstart hannounced
    apply announce_leads _ hfaithful hstart hannounced
    intro requests logged later start hfaithful hstored
    apply storeAll_leads _ hfaithful hstored
    intro attempt logged result start hfaithful hresult
    obtain ⟨sheet, calls, hlaw, hleads⟩ := ih hfaithful hresult
    exact hleads.whole hlaw start

/-- Several attempts, one after the other. -/
theorem Leads.foldlM {α : Type} {logging : Logged L → α → Option (Logged L)}
    (hlogging : ∀ {logged later item}, Faithful watch logged → logging logged item = some later →
      Leads watch logged later 0 [] [])
    {items : List α} {logged later : Logged L} (h : Faithful watch logged)
    (hrun : items.foldlM logging logged = some later) : Leads watch logged later 0 [] [] := by
  induction items generalizing logged with
  | nil =>
    obtain rfl := Option.some.inj hrun
    exact Leads.refl h 0
  | cons item items ih =>
    obtain ⟨next, hnext, hrest⟩ := Option.bind_eq_some_iff.mp hrun
    have hfirst := hlogging h hnext
    exact hfirst.trans (ih hfirst.faithful hrest) (Or.inr ⟨rfl, rfl⟩)

end Logged

/-! ### What steps do -/

open Logged

/-- The log tells a watched sheet. -/
def Told (watch : Watch L) (log : List (Event L)) : Prop :=
  sheetAfter log = watch.sheet ∧ Bound log watch.bindings

/-- What a step adds to the log: all its calls, and attempts that obey the law. -/
structure Adds (log : List (Event L)) (outcome : Outcome L) (stretch : List (Event L)) : Prop where
  told : Told outcome.watch (log ++ stretch)
  calls : outcome.calls = stretch.filterMap call?
  continues : attempts.Continues Tells log stretch 0 [] []

theorem Logged.Leads.adds_outcome {watch : Watch L} {log : List (Event L)} {later : Logged L}
    (h : Leads watch ⟨watch.start, log⟩ later 0 [] []) (changed : Bool) :
    ∃ stretch, later.log = log ++ stretch ∧ Adds log (watch.outcome (later.run, changed)) stretch := by
  obtain ⟨stretch, hlog, hcalls, hcontinues⟩ := h.adds
  have htold : Told (watch.outcome (later.run, changed)).watch (log ++ stretch) := by
    rw [← hlog]
    exact ⟨h.faithful.sheet, h.faithful.bound⟩
  exact ⟨stretch, hlog, htold, hcalls, hcontinues⟩

namespace Step

variable {react : Reactions L} {limit : Nat} {watch : Watch L} {log later : List (Event L)}
  {outcome : Outcome L}

/-- An attempt of its own tells whether it changed the attribute. -/
theorem logAttempt_adds {attempt : Attempt} (h : Told watch log)
    (hrun : logAttempt react limit watch log attempt = some (outcome, later)) :
    ∃ stretch, later = log ++ .tried attempt :: stretch ∧ Adds log outcome (.tried attempt :: stretch) ∧
      stretch.filterMap (answerTo? log.length) = [outcome.changed] := by
  obtain ⟨result, hresult, heq⟩ := Option.map_eq_some_iff.mp hrun
  obtain ⟨rfl, rfl⟩ := Prod.mk.inj heq
  obtain ⟨sheet, calls, hlaw, hbody⟩ := undertake_leads ⟨h.1, h.2⟩ hresult
  obtain ⟨whole, hwhole, hadds⟩ := (hbody.whole hlaw 0).adds_outcome result.2
  obtain ⟨stretch, hlog, -, hcontinues⟩ := hbody.adds
  have hsame : whole = .tried attempt :: stretch := by
    rw [hwhole, edit, List.append_assoc] at hlog
    exact List.append_cancel_left hlog
  have hanswer := (hcontinues.earlier log.length (by simp [edit])).2
  rw [if_pos rfl] at hanswer
  subst hsame
  exact ⟨stretch, hwhole, hadds, hanswer⟩

/-- An event that is no attempt, and tells what the step does to the watched sheet. -/
theorem adds_event {event : Event L} (htold : Told outcome.watch (log ++ [event]))
    (hcalls : outcome.calls = []) (hcall : event.call? = none) (hbegins : attempts.begins? event = none)
    (hdone : ∀ origin, event.callFrom? origin = none)
    (hended : ∀ origin, event.answerTo? origin = none) : Adds log outcome [event] where
  told := htold
  calls := by rw [hcalls, List.filterMap_cons_none hcall, List.filterMap_nil]
  continues := Spans.Continues.idle hbegins hdone hended 0

variable [DecidableEq L]

/-- Every step adds to the log what it does, and a step that tells whether it changed an attribute begins
with its attempt. -/
theorem logged_adds {step : Step L} (h : Told watch log)
    (hrun : step.logged react limit watch log = some (outcome, later)) :
    ∃ stretch, later = log ++ stretch ∧ Adds log outcome stretch ∧
      ∀ attempt, step.attempt? watch.sheet = some attempt → ∃ rest, stretch = .tried attempt :: rest ∧
        rest.filterMap (answerTo? log.length) = [outcome.changed] := by
  cases step with
  | set | reset | setFlags =>
    obtain ⟨stretch, hlog, hadds, hanswer⟩ := logAttempt_adds h hrun
    refine ⟨_, hlog, hadds, ?_⟩
    rintro _ ⟨⟩
    exact ⟨stretch, rfl, hanswer⟩
  | resetAll =>
    obtain ⟨last, hfold, heq⟩ := Option.map_eq_some_iff.mp hrun
    obtain ⟨rfl, rfl⟩ := Prod.mk.inj heq
    have hleads : Leads watch ⟨watch.start, log⟩ last 0 [] [] := by
      refine Leads.foldlM ?_ ⟨h.1, h.2⟩ hfold
      intro logged later name hfaithful hreset
      obtain ⟨result, hresult, rfl⟩ := Option.map_eq_some_iff.mp hreset
      obtain ⟨sheet, calls, hlaw, hbody⟩ := undertake_leads hfaithful hresult
      exact hbody.whole hlaw 0
    obtain ⟨stretch, hlog, hadds⟩ := hleads.adds_outcome true
    exact ⟨stretch, hlog, hadds, by rintro _ ⟨⟩⟩
  | restore dico all =>
    obtain ⟨last, hfold, heq⟩ := Option.map_eq_some_iff.mp hrun
    obtain ⟨rfl, rfl⟩ := Prod.mk.inj heq
    have hleads : Leads watch ⟨watch.start, log⟩ last 0 [] [] := by
      refine Leads.foldlM ?_ ⟨h.1, h.2⟩ hfold
      intro logged later name hfaithful hrestore
      obtain ⟨result, hresult, rfl⟩ := Option.map_eq_some_iff.mp hrestore
      obtain ⟨sheet, calls, hlaw, hbody⟩ := undertake_leads hfaithful hresult
      have hstored := hbody.whole hlaw 0
      dsimp only
      split
      · exact hstored.trans (Leads.freeze hstored.faithful name true 0) (Or.inr ⟨rfl, rfl⟩)
      · exact hstored
    obtain ⟨stretch, hlog, hadds⟩ := hleads.adds_outcome true
    exact ⟨stretch, hlog, hadds, by rintro _ ⟨⟩⟩
  | add | remove | freeze =>
    obtain ⟨rfl, rfl⟩ := Prod.mk.inj (Option.some.inj hrun)
    refine ⟨_, rfl, adds_event ⟨?_, h.2.idle (by simp) (by simp)⟩ rfl rfl rfl (fun _ => rfl) fun _ => rfl, ?_⟩
    · rw [sheetAfter_concat, h.1]
      rfl
    · rintro _ ⟨⟩
  | bind listener names =>
    obtain ⟨rfl, rfl⟩ := Prod.mk.inj (Option.some.inj hrun)
    refine ⟨_, rfl, adds_event ⟨?_, h.2.bind listener names⟩ rfl rfl rfl (fun _ => rfl) fun _ => rfl, ?_⟩
    · rw [sheetAfter_concat, h.1, sheet_bind]
      rfl
    · rintro _ ⟨⟩
  | unbind listener =>
    obtain ⟨rfl, rfl⟩ := Prod.mk.inj (Option.some.inj hrun)
    refine ⟨_, rfl, adds_event ⟨?_, h.2.unbind listener⟩ rfl rfl rfl (fun _ => rfl) fun _ => rfl, ?_⟩
    · rw [sheetAfter_concat, h.1]
      rfl
    · rintro _ ⟨⟩

end Step

section History

variable [DecidableEq L] {limit : Nat}

/-- A history adds attempts that obey the law, and the log tells the watched sheet after it. -/
theorem History.logged_adds {history : History L} {first last : Watch L × List (Event L)}
    (h : Told first.1 first.2) (hrun : history.logged limit first = some last) :
    Told last.1 last.2 ∧ ∃ stretch, last.2 = first.2 ++ stretch ∧
      attempts.Continues Tells first.2 stretch 0 [] [] := by
  induction history generalizing first with
  | nil =>
    obtain rfl := Option.some.inj hrun
    exact ⟨h, [], (List.append_nil _).symm, Spans.Continues.nil _ _⟩
  | cons entry history ih =>
    obtain ⟨next, hnext, hrest⟩ := Option.bind_eq_some_iff.mp hrun
    obtain ⟨⟨outcome, log⟩, hstep, rfl⟩ := Option.map_eq_some_iff.mp hnext
    obtain ⟨stretch, rfl, hadds, -⟩ := Step.logged_adds h hstep
    obtain ⟨htold, more, hlast, hmore⟩ := ih hadds.told hrest
    refine ⟨htold, stretch ++ more, ?_, hadds.continues.append hmore (Or.inr ⟨rfl, rfl⟩)⟩
    rw [hlast, List.append_assoc]

/-- Whatever is asked of an empty sheet, and whatever its listeners set in turn: a step leads to the sheet
and the listeners that the log tells, each listener once and with the names that it asked for last. Its
calls are those of the log, and each is part of an attempt. Every attempt, also one that a listener makes
while it is told of another, answers whether it changed the sheet, and calls each listener that asked for
the attribute once and in order, if it did and the attribute is not silent or its flags were changed, and
nobody else. What an operation that tries to change one attribute returns is the answer of its attempt. -/
theorem attempts_tell_the_bound (limit : Nat) (history : History L) (react : Reactions L) (step : Step L)
    {watch : Watch L} {outcome : Outcome L} (hhistory : history.run limit {} = some watch)
    (hstep : step.outcome react limit watch = some outcome) :
    ∃ log stretch, history.logged limit ({}, []) = some (watch, log) ∧
      step.logged react limit watch log = some (outcome, log ++ stretch) ∧
        outcome.watch.sheet = sheetAfter (log ++ stretch) ∧ Bound (log ++ stretch) outcome.watch.bindings ∧
        outcome.calls = stretch.filterMap call? ∧
        (∀ attempt, step.attempt? watch.sheet = some attempt → ∃ rest, stretch = .tried attempt :: rest ∧
          rest.filterMap (answerTo? log.length) = [outcome.changed]) ∧
        attempts.Rooted [] (log ++ stretch) ∧ attempts.Obeyed Tells [] (log ++ stretch) := by
  have hfirst : (history.logged limit ({}, [])).map Prod.fst = some watch :=
    (History.logged_run limit history ({}, [])).trans hhistory
  obtain ⟨⟨_, log⟩, hlogged, rfl⟩ := Option.map_eq_some_iff.mp hfirst
  have hsecond : (step.logged react limit _ log).map Prod.fst = some outcome :=
    (Step.logged_outcome step).trans hstep
  obtain ⟨⟨_, later⟩, hlater, rfl⟩ := Option.map_eq_some_iff.mp hsecond
  have hempty : Told ({} : Watch L) [] := ⟨rfl, bound_empty⟩
  obtain ⟨htold, before, hlog, hbefore⟩ := History.logged_adds hempty hlogged
  obtain rfl : log = before := hlog
  obtain ⟨stretch, rfl, hadds, hanswer⟩ := Step.logged_adds htold hlater
  have hall : attempts.Continues Tells [] (log ++ stretch) 0 [] [] :=
    hbefore.append hadds.continues (Or.inr ⟨rfl, rfl⟩)
  exact ⟨log, stretch, hlogged, hlater, hadds.told.1.symm, hadds.told.2, hadds.calls, hanswer,
    hall.rooted, hall.obeyed⟩

/-- Two listeners that answer each other. -/
def answering : Reactions Nat := fun listener _ _ _ =>
  if listener = 1 then [("b", [.long 7])] else [("a", [.long 5])]

/-- One of them is bound twice, and in the end asks for the other attribute. -/
def settling : History Nat :=
  [(answering, .add ⟨"a", .long, trivial, [.long 1], []⟩),
    (answering, .add ⟨"b", .long, trivial, [.long 2], []⟩), (answering, .bind 1 ["b"]),
    (answering, .bind 2 ["b"]), (answering, .bind 1 ["a"])]

/-- The first is told, sets the other attribute, and the second is told of that; what the second sets in
turn is there already. -/
theorem attempts_tell_the_bound_settling :
    ∃ watch outcome, settling.run 3 {} = some watch ∧
      (Step.set "a" [.long 5]).outcome answering 3 watch = some outcome ∧
        outcome.calls.map Call.listener = [1, 2] ∧ outcome.changed = true ∧
        ∃ log stretch, outcome.calls = stretch.filterMap call? ∧
          Bound (log ++ stretch) outcome.watch.bindings ∧ attempts.Obeyed Tells [] (log ++ stretch) := by
  have hcalls : ((settling.run 3 {}).bind fun watch => (Step.set "a" [.long 5]).outcome answering 3 watch).map
      (fun outcome => (outcome.calls.map Call.listener, outcome.changed)) = some ([1, 2], true) := by cbv
  obtain ⟨outcome, houtcome, heq⟩ := Option.map_eq_some_iff.mp hcalls
  obtain ⟨watch, hwatch, hstep⟩ := Option.bind_eq_some_iff.mp houtcome
  obtain ⟨hlisteners, hchanged⟩ := Prod.mk.inj heq
  obtain ⟨log, stretch, -, -, -, hbound, hlogged, -, -, hobeyed⟩ :=
    attempts_tell_the_bound 3 settling answering (.set "a" [.long 5]) hwatch hstep
  exact ⟨watch, outcome, hwatch, hstep, hlisteners, hchanged, log, stretch, hlogged, hbound, hobeyed⟩

end History

end Patchbay.Watch
