import Patchbay.Proofs.Beacon.Record
import Patchbay.Proofs.Beacon.Registry
import Patchbay.Proofs.Roll
import Patchbay.Proofs.Span

/-!
# Who a broadcast reaches

Castaways may bind and unbind castaways while a message is on its way, and broadcast on their own, so the
list of a beacon changes under the broadcasts that go through it. Still each broadcast reaches whoever
was bound when it began, and nobody else: this is read off the log of the run, in which every broadcast
has its own beginning, deliveries and end.
-/

namespace Patchbay

namespace Moment

variable {C : Type}

/-- What a castaway hears at a moment. -/
def heard? : Moment C → Option (Heard C)
  | .reached _ heard => some heard
  | _ => none

/-- What the broadcast that began at a place delivers at a moment. -/
def heardFrom? (start : Nat) : Moment C → Option (Heard C)
  | .reached origin heard => if origin = start then some heard else none
  | _ => none

/-- The count that the broadcast that began at a place ends with at a moment. -/
def countOf? (start : Nat) : Moment C → Option Nat
  | .ended origin count => if origin = start then some count else none
  | _ => none

/-- Who gets on the list of a beacon, and who off it. Being gone is to be off every list. -/
def onBeacon (number : Nat) : RollRule (Moment C) C where
  joins moment castaway := moment = .bound number castaway
  leaves moment castaway := moment = .unbound number castaway ∨ moment = .gone castaway

/-- Broadcasts as spans of the log. -/
def broadcasts : Spans (Moment C) (Nat × String × List Atom) (Heard C) Nat where
  begins?
    | .began number name atoms => some (number, name, atoms)
    | _ => none
  does? := heardFrom?
  ends? := countOf?

/-- The law of a broadcast: it reaches exactly those on the list of its beacon when it began, each once
and in order, and ends once, with their number. -/
def Reaches (before : List (Moment C)) : Nat × String × List Atom → List (Heard C) → List Nat → Prop
  | (number, name, atoms), heard, counts => ∃ castaways, (onBeacon number).Roll before castaways ∧
      heard = castaways.map (fun castaway => ⟨castaway, name, atoms⟩) ∧ counts = [castaways.length]

end Moment

namespace Recorded

open Moment RollRule Spans

variable {C S : Type}

/-- The log tells the lists of all beacons and all that was heard, and nothing happened on a beacon
before it was made. -/
structure Faithful (run : Recorded C S) : Prop where
  roll : ∀ number < run.air.registry.beacons.length,
    (onBeacon number).Roll run.log (run.air.registry.castaways number)
  unmade : ∀ number castaway, .bound number castaway ∈ run.log → number < run.air.registry.beacons.length
  heard : run.air.heard = run.log.filterMap heard?
  numbered : run.air.registry.Numbered

/-- What a stretch of a run does: it keeps the log faithful and adds to it. -/
structure Leads (run later : Recorded C S) (start : Nat) (heard : List (Heard C)) (counts : List Nat) :
    Prop where
  faithful : later.Faithful
  grows : run.air.registry.Grows later.air.registry
  adds : ∃ stretch, later.log = run.log ++ stretch ∧
    broadcasts.Continues Reaches run.log stretch start heard counts

variable {run later last : Recorded C S} {start : Nat} {heard others : List (Heard C)}
  {counts ends : List Nat}

theorem Leads.refl (h : run.Faithful) (start : Nat) : Leads run run start [] [] :=
  ⟨h, Registry.Grows.refl _, [], (List.append_nil _).symm, Continues.nil _ _⟩

theorem Leads.trans (h : Leads run later start heard counts) (hlast : Leads later last start others ends)
    (hstart : start < run.log.length ∨ others = [] ∧ ends = []) :
    Leads run last start (heard ++ others) (counts ++ ends) := by
  obtain ⟨stretch, hlog, hfirst⟩ := h.adds
  obtain ⟨more, hmore, hsecond⟩ := hlast.adds
  rw [hlog] at hsecond
  refine ⟨hlast.faithful, h.grows.trans hlast.grows, stretch ++ more, ?_, hfirst.append hsecond hstart⟩
  rw [hmore, hlog, List.append_assoc]

/-! ### What one moment does -/

section Note

variable {registry : Registry C} {moment : Moment C} {number : Nat} {castaway : C}

theorem Faithful.note (h : run.Faithful)
    (hsize : registry.beacons.length = run.air.registry.beacons.length)
    (hnames : registry.names = run.air.registry.names)
    (hroll : ∀ number < run.air.registry.beacons.length,
      (onBeacon number).Roll (run.log ++ [moment]) (registry.castaways number))
    (hbound : ∀ number castaway, moment = .bound number castaway →
      number < run.air.registry.beacons.length)
    (hheard : moment.heard? = none) : (run.note registry moment).Faithful where
  roll number hnumber := hroll number (hsize ▸ hnumber)
  unmade number castaway hmem := by
    rw [Recorded.note, hsize]
    rcases List.mem_append.mp hmem with hmem | hmem
    · exact h.unmade number castaway hmem
    · exact hbound number castaway (List.mem_singleton.mp hmem).symm
  heard := by
    rw [Recorded.note, List.filterMap_append, List.filterMap_cons_none hheard, ← h.heard]
    exact (List.append_nil _).symm
  numbered entry hentry := by
    rw [Recorded.note] at hentry ⊢
    rw [hsize]
    exact h.numbered entry (hnames ▸ hentry)

/-- A moment that is about no list. -/
theorem Faithful.idle (h : run.Faithful) (hbound : ∀ number castaway, moment ≠ .bound number castaway)
    (hunbound : ∀ number castaway, moment ≠ .unbound number castaway)
    (hgone : ∀ castaway, moment ≠ .gone castaway) (hheard : moment.heard? = none) :
    (run.note run.air.registry moment).Faithful := by
  apply h.note rfl rfl _ (fun number castaway heq => absurd heq (hbound number castaway)) hheard
  intro number hnumber
  apply (h.roll number hnumber).idle (hbound number)
  exact fun castaway hor => hor.elim (hunbound number castaway) (hgone castaway)

/-- A message that is heard. -/
theorem Faithful.hear (h : run.Faithful) (state : S) (origin : Nat) (heard : Heard C) :
    (run.hear state origin heard).Faithful where
  roll number hnumber := (h.roll number hnumber).idle (by simp [onBeacon]) (by simp [onBeacon])
  unmade number castaway hmem := by
    rcases List.mem_append.mp hmem with hmem | hmem
    · exact h.unmade number castaway hmem
    · simp at hmem
  heard := by
    rw [Recorded.hear, List.filterMap_append, ← h.heard]
    rfl
  numbered := h.numbered

/-- A moment that is no part of a broadcast. -/
theorem Leads.note (hlater : (run.note registry moment).Faithful)
    (hgrows : run.air.registry.Grows registry)
    (hbegins : broadcasts.begins? moment = none) (hheard : ∀ origin, moment.heardFrom? origin = none)
    (hcount : ∀ origin, moment.countOf? origin = none) (start : Nat) :
    Leads run (run.note registry moment) start [] [] :=
  ⟨hlater, hgrows, [moment], rfl, Continues.idle hbegins hheard hcount start⟩

variable [DecidableEq C]

theorem Leads.bind (h : run.Faithful) (hnumber : number < run.air.registry.beacons.length)
    (castaway : C) (start : Nat) :
    Leads run (run.note (run.air.registry.bind number castaway) (.bound number castaway)) start [] [] := by
  apply Leads.note _ (Registry.update_grows _ _) rfl (fun _ => rfl) (fun _ => rfl) start
  apply h.note (Registry.update_size _ _) rfl _ (fun _ _ heq => (Moment.bound.inj heq).1 ▸ hnumber) rfl
  intro other hother
  by_cases hsame : number = other
  · subst hsame
    rw [Registry.castaways_update hnumber]
    apply (h.roll number hnumber).join <;> simp [onBeacon, eq_comm]
  · rw [Registry.castaways_update_of_ne hsame]
    apply (h.roll other hother).idle <;> simp [onBeacon, hsame]

theorem Leads.unbind (h : run.Faithful) (number : Nat) (castaway : C) (start : Nat) :
    Leads run (run.note (run.air.registry.unbind number castaway) (.unbound number castaway)) start [] [] := by
  apply Leads.note _ (Registry.update_grows _ _) rfl (fun _ => rfl) (fun _ => rfl) start
  apply h.note (Registry.update_size _ _) rfl _ (by simp) rfl
  intro other hother
  by_cases hsame : number = other
  · subst hsame
    rw [Registry.castaways_update hother]
    apply (h.roll number hother).leave
    · simp [onBeacon]
    · simp [onBeacon, @eq_comm _ castaway]
  · rw [Registry.castaways_update_of_ne hsame]
    apply (h.roll other hother).idle <;> simp [onBeacon, hsame]

/-- A castaway that is gone leaves all lists. -/
theorem Leads.forget (h : run.Faithful) (castaway : C) (start : Nat) :
    Leads run (run.note (run.air.registry.forget fun other => other = castaway) (.gone castaway)) start
      [] [] := by
  apply Leads.note _ (Registry.forget_grows _) rfl (fun _ => rfl) (fun _ => rfl) start
  apply h.note (Registry.forget_size _) rfl _ (by simp) rfl
  intro other hother
  rw [Registry.castaways_forget]
  apply (h.roll other hother).leave
  · simp [onBeacon]
  · simp [onBeacon, @eq_comm _ castaway]

end Note

/-- A beacon that is made has nobody on its list, and no name stands for a beacon that is not there. -/
theorem Faithful.create (h : run.Faithful) (name : String) :
    ({ run with air := { run.air with registry := (run.air.registry.create name).1 } } :
      Recorded C S).Faithful where
  roll number hnumber := by
    rw [Registry.castaways_create]
    by_cases hold : number < run.air.registry.beacons.length
    · exact h.roll number hold
    · have hnone : run.air.registry.castaways number = [] := by
        rw [Registry.castaways, List.getElem?_eq_none (Nat.le_of_not_lt hold)]
        rfl
      rw [hnone]
      apply Roll.empty
      rintro event hevent castaway rfl
      exact hold (h.unmade number castaway hevent)
  unmade number castaway hmem :=
    Nat.lt_of_lt_of_le (h.unmade number castaway hmem) (run.air.registry.create_grows name).size
  heard := h.heard
  numbered := h.numbered.create name

/-- Making a beacon is no moment of the log. -/
theorem Leads.create (h : run.Faithful) (name : String) (start : Nat) :
    Leads run { run with air := { run.air with registry := (run.air.registry.create name).1 } } start
      [] [] :=
  ⟨h.create name, run.air.registry.create_grows name, [], (List.append_nil _).symm, Continues.nil _ _⟩

/-! ### What broadcasts do -/

variable [DecidableEq C] {respond : Responder C S}

section Depth

variable {depth number : Nat}

/-- What castaways do in turn leaves the deliveries that are under way as they are. -/
theorem carryOut_leads
    (htransmit : ∀ {other atoms} {run : Recorded C S} {result} (start : Nat), run.Faithful →
      other < run.air.registry.beacons.length → transmit respond depth other atoms run = some result →
      Leads run result.1 start [] [])
    {responses : List (Response C)} {run later : Recorded C S} (h : run.Faithful)
    (hnumber : number < run.air.registry.beacons.length)
    (hrun : carryOut respond depth number responses run = some later) (start : Nat) :
    Leads run later start [] [] := by
  induction responses generalizing run with
  | nil =>
    rw [carryOut] at hrun
    obtain rfl := Option.some.inj hrun
    exact Leads.refl h start
  | cons response rest ih =>
    cases response with
    | bind castaway =>
      rw [carryOut] at hrun
      have hbound := Leads.bind h hnumber castaway start
      have hrest := ih hbound.faithful (Nat.lt_of_lt_of_le hnumber hbound.grows.size) hrun
      exact hbound.trans hrest (Or.inr ⟨rfl, rfl⟩)
    | unbind castaway =>
      rw [carryOut] at hrun
      have hunbound := Leads.unbind h number castaway start
      have hrest := ih hunbound.faithful (Nat.lt_of_lt_of_le hnumber hunbound.grows.size) hrun
      exact hunbound.trans hrest (Or.inr ⟨rfl, rfl⟩)
    | broadcast name atoms =>
      rw [carryOut] at hrun
      obtain ⟨result, hsent, hrun⟩ := Option.bind_eq_some_iff.mp hrun
      have hmade := Leads.create h name start
      have hserved := hmade.trans
        (htransmit start hmade.faithful (h.numbered.create_lt name) hsent) (Or.inr ⟨rfl, rfl⟩)
      have hrest := ih hserved.faithful (Nat.lt_of_lt_of_le hnumber hserved.grows.size) hrun
      exact hserved.trans hrest (Or.inr ⟨rfl, rfl⟩)

/-- A broadcast delivers to one castaway after the other, whatever each of them does in turn. -/
theorem deliver_leads
    (hcarry : ∀ {responses} {run later : Recorded C S} (start : Nat), run.Faithful →
      number < run.air.registry.beacons.length →
      carryOut respond depth number responses run = some later → Leads run later start [] [])
    {start : Nat} {atoms : List Atom} {castaways : List C} {run later : Recorded C S} (h : run.Faithful)
    (hnumber : number < run.air.registry.beacons.length) (hstart : start < run.log.length)
    (hrun : deliver respond (depth + 1) number start atoms castaways run = some later) :
    Leads run later start
      (castaways.map fun castaway => ⟨castaway, run.air.registry.nameOf number, atoms⟩) [] := by
  induction castaways generalizing run with
  | nil =>
    rw [deliver] at hrun
    obtain rfl := Option.some.inj hrun
    exact Leads.refl h start
  | cons castaway rest ih =>
    rw [deliver] at hrun
    obtain ⟨answered, hanswered, hrun⟩ := Option.bind_eq_some_iff.mp hrun
    have hreached : Leads run (run.hear (respond run.air.state castaway atoms).1 start
        ⟨castaway, run.air.registry.nameOf number, atoms⟩) start
          [⟨castaway, run.air.registry.nameOf number, atoms⟩] [] := by
      refine ⟨h.hear _ _ _, Registry.Grows.refl _, _, rfl, Continues.single rfl ?_ ?_ (Or.inl hstart)⟩
      · intro origin
        by_cases heq : start = origin <;> simp [broadcasts, heardFrom?, heq, @eq_comm _ origin]
      · simp [broadcasts, countOf?]
    have hfirst := hreached.trans (hcarry start hreached.faithful hnumber hanswered) (Or.inr ⟨rfl, rfl⟩)
    have hlog : run.log.length ≤ answered.log.length := by
      obtain ⟨stretch, hlog, -⟩ := hfirst.adds
      rw [hlog, List.length_append]
      exact Nat.le_add_right _ _
    have hrest := ih hfirst.faithful (Nat.lt_of_lt_of_le hnumber hfirst.grows.size)
      (Nat.lt_of_lt_of_le hstart hlog) hrun
    rw [hfirst.grows.name number hnumber] at hrest
    exact hfirst.trans hrest (Or.inl hstart)

/-- A broadcast is served if its deliveries are made. -/
theorem transmit_leads_of_deliver
    (hdeliver : ∀ {start atoms castaways} {run later : Recorded C S}, run.Faithful →
      number < run.air.registry.beacons.length → start < run.log.length →
      deliver respond depth number start atoms castaways run = some later →
      Leads run later start
        (castaways.map fun castaway => ⟨castaway, run.air.registry.nameOf number, atoms⟩) [])
    {atoms : List Atom} {run : Recorded C S} {result : Recorded C S × Nat} (h : run.Faithful)
    (hnumber : number < run.air.registry.beacons.length)
    (hrun : transmit respond depth number atoms run = some result) (start : Nat) :
    Leads run result.1 start [] [] := by
  rw [transmit] at hrun
  obtain ⟨served, hserved, rfl⟩ := Option.map_eq_some_iff.mp hrun
  have hbegun : (run.note run.air.registry
      (.began number (run.air.registry.nameOf number) atoms)).Faithful :=
    h.idle (by simp) (by simp) (by simp) rfl
  have hbefore : run.log.length < (run.log ++ [Moment.began number (run.air.registry.nameOf number)
      atoms]).length := by simp
  have hdelivered := hdeliver hbegun hnumber hbefore hserved
  have hended : Leads served (served.note served.air.registry
      (.ended run.log.length (run.air.registry.castaways number).length)) run.log.length []
        [(run.air.registry.castaways number).length] := by
    refine ⟨hdelivered.faithful.idle (by simp) (by simp) (by simp) rfl, Registry.Grows.refl _, _, rfl,
      Continues.single rfl ?_ ?_ (Or.inr rfl)⟩
    · simp [broadcasts, heardFrom?]
    · intro origin
      by_cases heq : run.log.length = origin <;> simp [broadcasts, countOf?, heq, @eq_comm _ origin]
  have hbody := hdelivered.trans hended (Or.inl hbefore)
  obtain ⟨stretch, hlog, hcontinues⟩ := hbody.adds
  rw [List.append_nil, List.nil_append] at hcontinues
  have hlaw : Reaches run.log (number, run.air.registry.nameOf number, atoms) _ _ :=
    ⟨_, h.roll number hnumber, rfl, rfl⟩
  refine ⟨hbody.faithful, hbody.grows, _ :: stretch, ?_,
    Continues.whole rfl (fun _ => rfl) (fun _ => rfl) hlaw hcontinues start⟩
  rw [hlog, Recorded.note, List.append_assoc]
  rfl

end Depth

/-- Every broadcast is served, at every depth. -/
theorem transmit_leads {depth number : Nat} {atoms : List Atom} {run : Recorded C S}
    {result : Recorded C S × Nat} (h : run.Faithful) (hnumber : number < run.air.registry.beacons.length)
    (hrun : transmit respond depth number atoms run = some result) (start : Nat) :
    Leads run result.1 start [] [] := by
  induction depth generalizing number atoms run result start with
  | zero =>
    refine transmit_leads_of_deliver ?_ h hnumber hrun start
    intro start atoms castaways run later hfaithful _ _ hserved
    cases castaways with
    | nil =>
      rw [deliver] at hserved
      obtain rfl := Option.some.inj hserved
      exact Leads.refl hfaithful start
    | cons castaway rest =>
      rw [deliver] at hserved
      cases hserved
  | succ depth ih =>
    refine transmit_leads_of_deliver ?_ h hnumber hrun start
    intro start atoms castaways run later hfaithful hnumber hstart hserved
    apply deliver_leads _ hfaithful hnumber hstart hserved
    intro responses run later start hfaithful hnumber hcarried
    exact carryOut_leads (fun start h hnumber hsent => ih h hnumber hsent start) hfaithful hnumber
      hcarried start

/-- So whatever is asked adds a stretch to the log in which every broadcast is served. -/
theorem request_leads {limit : Nat} {request : Airwaves.Request C} {run later : Recorded C S}
    (h : run.Faithful) (hrun : run.request respond limit request = some later) :
    Leads run later 0 [] [] := by
  cases request with
  | create name =>
    obtain rfl := Option.some.inj hrun
    exact Leads.create h name 0
  | clear =>
    obtain rfl := Option.some.inj hrun
    refine ⟨⟨h.roll, h.unmade, h.heard, ?_⟩, ⟨Nat.le_refl _, fun _ _ => rfl⟩, [],
      (List.append_nil _).symm, Continues.nil _ _⟩
    exact fun entry hentry => absurd hentry List.not_mem_nil
  | bind number castaway =>
    obtain ⟨hnumber, heq⟩ := Option.ite_none_right_eq_some.mp hrun
    obtain rfl := Option.some.inj heq
    exact Leads.bind h hnumber castaway 0
  | unbind number castaway =>
    obtain ⟨-, heq⟩ := Option.ite_none_right_eq_some.mp hrun
    obtain rfl := Option.some.inj heq
    exact Leads.unbind h number castaway 0
  | drop castaway =>
    obtain rfl := Option.some.inj hrun
    exact Leads.forget h castaway 0
  | broadcast number atoms =>
    obtain ⟨hnumber, heq⟩ := Option.ite_none_right_eq_some.mp hrun
    obtain ⟨result, hsent, rfl⟩ := Option.map_eq_some_iff.mp heq
    exact transmit_leads h hnumber hsent 0

/-- And so do any requests, one after the other. -/
theorem requests_lead {limit : Nat} {requests : List (Airwaves.Request C)} {run later : Recorded C S}
    (h : run.Faithful) (hrun : requests.foldlM (Recorded.request respond limit) run = some later) :
    Leads run later 0 [] [] := by
  induction requests generalizing run with
  | nil =>
    obtain rfl := Option.some.inj hrun
    exact Leads.refl h 0
  | cons request requests ih =>
    obtain ⟨next, hnext, hrest⟩ := Option.bind_eq_some_iff.mp hrun
    have hfirst := request_leads h hnext
    exact hfirst.trans (ih hfirst.faithful hrest) (Or.inr ⟨rfl, rfl⟩)

omit [DecidableEq C] in
/-- Before anything was asked there is nothing to tell. -/
theorem faithful_fresh (state : S) : (⟨⟨{}, state, []⟩, []⟩ : Recorded C S).Faithful where
  roll _ hnumber := absurd hnumber (Nat.not_lt_zero _)
  unmade _ _ hmem := absurd hmem List.not_mem_nil
  heard := rfl
  numbered _ hentry := absurd hentry List.not_mem_nil

end Recorded

namespace Airwaves

open Moment

variable {C S : Type} [DecidableEq C]

/-- The count that a broadcast returns. -/
theorem transmit_count {respond : Responder C S} {depth number : Nat} {atoms : List Atom}
    {air later : Airwaves C S} {count : Nat}
    (h : transmit respond depth number atoms air = some (later, count)) :
    count = (air.registry.castaways number).length := by
  rw [transmit] at h
  obtain ⟨delivered, -, heq⟩ := Option.map_eq_some_iff.mp h
  exact (Prod.mk.inj heq).2.symm

/-- Whatever is asked of the beacons of a new registry, and whatever castaways do in turn: the list of a
beacon has each castaway once, in the order in which they were bound. All that was heard was delivered by
some broadcast of the log. Every broadcast, also one that a castaway began while another was under way, delivers its
message once to each castaway that was bound when it began, in order of binding, and to nobody else, and
returns their number. -/
theorem broadcasts_reach_the_bound (respond : Responder C S) (limit : Nat) (state : S)
    (requests : List (Request C)) {air : Airwaves C S}
    (hrun : requests.foldlM (request respond limit) ⟨{}, state, []⟩ = some air) :
    ∃ log, requests.foldlM (Recorded.request respond limit) ⟨⟨{}, state, []⟩, []⟩ = some ⟨air, log⟩ ∧
      (∀ number < air.registry.beacons.length, (air.registry.castaways number).Nodup ∧
        (onBeacon number).Roll log (air.registry.castaways number)) ∧
      air.heard = log.filterMap heard? ∧
      broadcasts.Rooted [] log ∧ broadcasts.Obeyed Reaches [] log ∧
      ∀ number atoms later count, transmit respond limit number atoms air = some (later, count) →
        count = (air.registry.castaways number).length := by
  have hrecorded : (requests.foldlM (Recorded.request respond limit) ⟨⟨{}, state, []⟩, []⟩).map
      Recorded.air = some air := (Recorded.requests_air limit requests _).trans hrun
  obtain ⟨⟨_, log⟩, hlog, rfl⟩ := Option.map_eq_some_iff.mp hrecorded
  have hleads := Recorded.requests_lead (Recorded.faithful_fresh state) hlog
  obtain ⟨stretch, hstretch, hcontinues⟩ := hleads.adds
  obtain rfl : log = stretch := hstretch
  refine ⟨log, hlog, ?_, hleads.faithful.heard, hcontinues.rooted, hcontinues.obeyed, ?_⟩
  · intro number hnumber
    have hroll := hleads.faithful.roll number hnumber
    exact ⟨hroll.nodup, hroll⟩
  · intro number atoms later count hsent
    exact transmit_count hsent

/-- The first castaway to be reached unbinds the second, binds another and broadcasts elsewhere. -/
def meddle : Responder Nat Nat := fun state _ atoms =>
  (state + 1, if state = 0 then [.unbind 2, .bind 4, .broadcast "b" atoms] else [])

/-- Two beacons, a castaway that is bound twice and one that is gone. -/
def meddling : List (Request Nat) :=
  [.create "a", .create "b", .bind 0 1, .bind 0 2, .bind 0 1, .bind 1 3, .bind 1 5, .drop 5,
    .broadcast 0 []]

/-- The castaway that was unbound is reached, the one that was bound meanwhile is not. -/
def meddled : Airwaves Nat Nat where
  registry := ⟨[⟨"a", [1, 4]⟩, ⟨"b", [3]⟩], [("a", 0), ("b", 1)]⟩
  state := 3
  heard := [⟨1, "a", []⟩, ⟨3, "b", []⟩, ⟨2, "a", []⟩]

/-- So it is told by the log. -/
theorem broadcasts_reach_the_bound_meddling :
    meddling.foldlM (request meddle 2) ⟨{}, 0, []⟩ = some meddled ∧
      ∃ log, meddling.foldlM (Recorded.request meddle 2) ⟨⟨{}, 0, []⟩, []⟩ = some ⟨meddled, log⟩ ∧
        (onBeacon 0).Roll log [1, 4] ∧ meddled.heard = log.filterMap heard? ∧
        broadcasts.Obeyed Reaches [] log := by
  have hrun : meddling.foldlM (request meddle 2) ⟨{}, 0, []⟩ = some meddled := by cbv
  obtain ⟨log, hlog, hrolls, hheard, -, hobeyed, -⟩ :=
    broadcasts_reach_the_bound meddle 2 0 meddling hrun
  exact ⟨hrun, log, hlog, (hrolls 0 (by decide)).2, hheard, hobeyed⟩

end Airwaves

end Patchbay
