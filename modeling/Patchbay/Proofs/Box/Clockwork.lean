import Patchbay.Box.Timing
import Mathlib.Data.Multiset.AddSub

/-!
# Clockworks

A timing box by itself: its state, its attributes and the deadlines of the ticks that wait for it. It
takes in messages and is ticked, and a tick is taken only when it is due and none that is due earlier
waits. Whatever the box was asked before, its ticks go on waiting; nothing calls them back.

A diary is what happened at the box, and a monitor reads it: from entry to entry it keeps what it has to
know, and it accepts the diary if it allows every entry.
-/

namespace Patchbay

/-- Something that happens at a box. -/
inductive Happening where
  | received (inlet : Nat) (atoms : List Atom)
  | ticked
  | sent (outlet : Nat) (atoms : List Atom)

namespace Happening

/-- Decide whether a message was sent. -/
def isSent : Happening → Bool
  | sent _ _ => true
  | _ => false

end Happening

/-- What happened at a box, each thing with its time, in order. -/
abbrev Diary := List (Nat × Happening)

namespace Diary

/-- Nothing was sent. -/
def Silent (diary : Diary) : Prop := ∀ entry ∈ diary, entry.2.isSent = false

theorem silent_nil : Silent [] := nofun

theorem silent_cons {entry : Nat × Happening} {diary : Diary} :
    Silent (entry :: diary) ↔ entry.2.isSent = false ∧ Silent diary := List.forall_mem_cons

theorem silent_append {first second : Diary} :
    Silent (first ++ second) ↔ Silent first ∧ Silent second := List.forall_mem_append

end Diary

namespace Effect

/-- The deadline of the tick that an effect asks for. -/
def deadline? (now : Nat) : Effect → Option Nat
  | tickAfter _ wait => some (now + min wait longestWait)
  | _ => none

/-- What an effect puts out. -/
def output? : Effect → Option Happening
  | send outlet atoms => some (.sent outlet atoms)
  | _ => none

end Effect

/-- A timing box with its attributes, and the deadlines of the ticks that wait for it. -/
structure Clockwork where
  timing : Timing
  sheet : Sheet
  ticks : Multiset Nat

namespace Clockwork

/-- Ask for the ticks that effects ask for. -/
def ask (now : Nat) (effects : List Effect) (clockwork : Clockwork) : Clockwork :=
  { clockwork with ticks := ↑(effects.filterMap (Effect.deadline? now)) + clockwork.ticks }

/-- Take on what comes of a reaction, and ask for the ticks that it asks for. -/
def settle (clockwork : Clockwork) (now : Nat) (reaction : Reaction Timing) : Clockwork :=
  ask now reaction.effects { clockwork with timing := reaction.state, sheet := reaction.sheet }

/-- What is noted of a reaction: what it is a reaction to, and what it puts out. -/
def entries (now : Nat) (cause : Happening) (reaction : Reaction Timing) : Diary :=
  (cause :: reaction.effects.filterMap Effect.output?).map (Prod.mk now)

/-- What can happen to a clockwork at a time, and what is noted of it. When a tick may be taken is a
parameter: it is told the attributes, the deadline and the time. -/
inductive Act (allowed : Sheet → Nat → Nat → Prop) : Clockwork → Diary → Clockwork → Prop where
  | received (clockwork : Clockwork) (here : Surroundings) (hsheet : here.sheet = clockwork.sheet)
    (inlet : Nat) (atoms : List Atom) :
    Act allowed clockwork
      (entries here.now (.received inlet atoms) (clockwork.timing.receive here inlet atoms))
      (clockwork.settle here.now (clockwork.timing.receive here inlet atoms))
  /-- The tick that is due first is taken. -/
  | ticked (clockwork : Clockwork) (here : Surroundings) (hsheet : here.sheet = clockwork.sheet)
    {deadline : Nat} {rest : Multiset Nat} (hticks : clockwork.ticks = deadline ::ₘ rest)
    (hfirst : ∀ other ∈ rest, deadline ≤ other) (hdue : deadline ≤ here.now)
    (hallowed : allowed clockwork.sheet deadline here.now) :
    Act allowed clockwork (entries here.now .ticked (clockwork.timing.tick here))
      (settle { clockwork with ticks := rest } here.now (clockwork.timing.tick here))
  /-- A tick is asked for from outside. -/
  | asked (clockwork : Clockwork) (deadline : Nat) :
    Act allowed clockwork [] { clockwork with ticks := deadline ::ₘ clockwork.ticks }

/-- What happens to a clockwork as time goes by, and its diary. -/
inductive Trace (allowed : Sheet → Nat → Nat → Prop) : Clockwork → Diary → Clockwork → Prop where
  | nil (clockwork : Clockwork) : Trace allowed clockwork [] clockwork
  | cons {clockwork later last : Clockwork} {first rest : Diary}
    (hact : Act allowed clockwork first later) (htrace : Trace allowed later rest last) :
    Trace allowed clockwork (first ++ rest) last

variable {allowed : Sheet → Nat → Nat → Prop} {clockwork later last : Clockwork} {first second : Diary}

/-- An act of which a tick is noted first takes the tick that is due first, and the rest that is noted is
what comes of it. -/
theorem Act.exists_tick {moment : Nat} {outs : Diary}
    (hact : Act allowed clockwork ((moment, .ticked) :: outs) later) :
    ∃ (here : Surroundings) (deadline : Nat) (rest : Multiset Nat),
      here.now = moment ∧ here.sheet = clockwork.sheet ∧
      clockwork.ticks = deadline ::ₘ rest ∧ (∀ other ∈ rest, deadline ≤ other) ∧
      allowed clockwork.sheet deadline here.now ∧
      outs = ((clockwork.timing.tick here).effects.filterMap Effect.output?).map (Prod.mk here.now) := by
  generalize hdiary : (moment, Happening.ticked) :: outs = diary at hact
  cases hact with
  | received => cases hdiary
  | ticked here hsheet hticks hfirst _ hallowed =>
    obtain ⟨hnoted, houts⟩ := List.cons.inj hdiary
    exact ⟨here, _, _, (Prod.mk.inj hnoted).1.symm, hsheet, hticks, hfirst, hallowed, houts⟩
  | asked => cases hdiary

/-- When the tick that is due first is taken, whatever is not due yet goes on waiting. -/
theorem mem_rest_of_lt {deadline due now : Nat} {rest : Multiset Nat}
    (hticks : clockwork.ticks = deadline ::ₘ rest) (hdue : deadline ≤ now)
    (hmem : due ∈ clockwork.ticks) (hearly : now < due) : due ∈ rest := by
  rw [hticks, Multiset.mem_cons] at hmem
  exact hmem.resolve_left (Nat.lt_of_le_of_lt hdue hearly).ne'

namespace Trace

theorem single (hact : Act allowed clockwork first later) : Trace allowed clockwork first later := by
  have h := Trace.cons hact (.nil later)
  rwa [List.append_nil] at h

theorem append (h : Trace allowed clockwork first later) (hlast : Trace allowed later second last) :
    Trace allowed clockwork (first ++ second) last := by
  induction h with
  | nil => exact hlast
  | cons hact _ ih =>
    rw [List.append_assoc]
    exact .cons hact (ih hlast)

/-- Only sent messages are put out. -/
theorem isSent_of_mem_outputs {now : Nat} {effects : List Effect} {entry : Nat × Happening}
    (h : entry ∈ (effects.filterMap Effect.output?).map (Prod.mk now)) : entry.2.isSent = true := by
  obtain ⟨happening, houtput, rfl⟩ := List.mem_map.mp h
  obtain ⟨effect, -, heffect⟩ := List.mem_filterMap.mp houtput
  cases effect with
  | send outlet atoms =>
    obtain rfl := Option.some.inj heffect
    rfl
  | _ => cases heffect

/-- An act in which a tick is noted begins with it. -/
theorem eq_nil_of_ticked {moment : Nat} {rest : Diary}
    (hact : Act allowed clockwork (first ++ (moment, .ticked) :: rest) later) : first = [] := by
  have hentries : ∀ (now : Nat) (cause : Happening) (reaction : Reaction Timing),
      first ++ (moment, .ticked) :: rest = entries now cause reaction → first = [] := by
    intro now cause reaction heq
    cases first with
    | nil => rfl
    | cons entry others =>
      have hmem : (moment, Happening.ticked) ∈
          (reaction.effects.filterMap Effect.output?).map (Prod.mk now) := by
        rw [← (List.cons.inj heq).2]
        exact List.mem_append_right _ List.mem_cons_self
      cases isSent_of_mem_outputs hmem
  generalize hdiary : first ++ (moment, .ticked) :: rest = diary at hact
  cases hact with
  | received | ticked => exact hentries _ _ _ hdiary
  | asked => exact absurd hdiary (by simp)

/-- Where a tick is noted, an act begins. -/
theorem exists_act_of_ticked {moment : Nat} {rest : Diary}
    (h : Trace allowed clockwork (first ++ (moment, .ticked) :: rest) last) :
    ∃ middle later outs more, Trace allowed clockwork first middle ∧
      Act allowed middle ((moment, .ticked) :: outs) later ∧ rest = outs ++ more := by
  generalize hdiary : first ++ (moment, .ticked) :: rest = diary at h
  induction h generalizing first with
  | nil => exact absurd hdiary (by simp)
  | @cons clockwork middle last noted others hact htrace ih =>
    have hlater : ∀ begins, first = noted ++ begins → begins ++ (moment, .ticked) :: rest = others →
        ∃ place later outs more, Trace allowed clockwork first place ∧
          Act allowed place ((moment, .ticked) :: outs) later ∧ rest = outs ++ more := by
      rintro begins rfl hothers
      obtain ⟨place, later, outs, more, hplace, htick, hmore⟩ := ih hothers
      exact ⟨place, later, outs, more, .cons hact hplace, htick, hmore⟩
    rcases List.append_eq_append_iff.mp hdiary with ⟨ends, rfl, hothers⟩ | ⟨begins, hfirst, hothers⟩
    · cases ends with
      | nil => exact hlater [] (by simp) hothers
      | cons entry outs =>
        obtain ⟨rfl, hrest⟩ := List.cons.inj hothers
        obtain rfl := eq_nil_of_ticked hact
        exact ⟨clockwork, middle, outs, others, .nil clockwork, hact, hrest⟩
    · exact hlater begins hfirst hothers.symm

end Trace

end Clockwork

/-- A reader of diaries: what it keeps after an entry, and whether it allows the entry. -/
structure Monitor (σ : Type) where
  note : σ → Nat × Happening → σ
  allows : σ → Nat × Happening → Prop

namespace Monitor

variable {σ : Type} (monitor : Monitor σ)

/-- What is kept after a diary. -/
def after (state : σ) (diary : Diary) : σ := diary.foldl monitor.note state

/-- Every entry of the diary is allowed. -/
def Accepts : σ → Diary → Prop
  | _, [] => True
  | state, entry :: rest => monitor.allows state entry ∧ Accepts (monitor.note state entry) rest

theorem after_append (state : σ) (first second : Diary) :
    monitor.after state (first ++ second) = monitor.after (monitor.after state first) second :=
  List.foldl_append

theorem accepts_append {state : σ} {first second : Diary} :
    monitor.Accepts state (first ++ second) ↔
      monitor.Accepts state first ∧ monitor.Accepts (monitor.after state first) second := by
  induction first generalizing state with
  | nil => simp [Accepts, after]
  | cons entry rest ih =>
    rw [List.cons_append, Accepts, Accepts, ih, and_assoc]
    rfl

variable {monitor}

/-- A monitor that accepts the diary of everything that can happen accepts every diary. -/
theorem accepts_of_trace {allowed : Sheet → Nat → Nat → Prop} {Fits : σ → Clockwork → Prop}
    (hact : ∀ {state clockwork later diary}, Clockwork.Act allowed clockwork diary later →
      Fits state clockwork → monitor.Accepts state diary ∧ Fits (monitor.after state diary) later)
    {state : σ} {clockwork later : Clockwork} {diary : Diary}
    (htrace : Clockwork.Trace allowed clockwork diary later) (hfits : Fits state clockwork) :
    monitor.Accepts state diary ∧ Fits (monitor.after state diary) later := by
  induction htrace generalizing state with
  | nil => exact ⟨trivial, hfits⟩
  | cons hfirst _ ih =>
    obtain ⟨haccepts, hbetween⟩ := hact hfirst hfits
    obtain ⟨hrest, hlast⟩ := ih hbetween
    rw [accepts_append, after_append]
    exact ⟨⟨haccepts, hrest⟩, hlast⟩

end Monitor

namespace Timing

/-- The generation of its clock, which a timing box keeps. -/
def generation : Timing → Nat
  | delay clock _ _ => clock
  | metro clock _ => clock

/-- What a timing box may ask for: a tick of its clock, and after that a message to be sent. -/
inductive Asks (clock : Nat) : List Effect → Prop where
  | nothing : Asks clock []
  | bang (outlet : Nat) (atoms : List Atom) : Asks clock [.send outlet atoms]
  | tick (wait : Nat) : Asks clock [.tickAfter clock wait]
  | tickAndBang (wait outlet : Nat) (atoms : List Atom) :
    Asks clock [.tickAfter clock wait, .send outlet atoms]

/-- A reaction of a timing box to anything keeps its clock, and asks for what it may ask for. -/
structure Sound (timing : Timing) (reaction : Reaction Timing) : Prop where
  generation : reaction.state.generation = timing.generation
  asks : Asks timing.generation reaction.effects

theorem sound_receive (here : Surroundings) (inlet : Nat) (atoms : List Atom) (timing : Timing) :
    timing.Sound (timing.receive here inlet atoms) := by
  cases atoms with
  | nil => cases timing <;> exact ⟨rfl, .nothing⟩
  | cons first rest =>
    cases timing with
    | delay clock milliseconds armed? =>
      simp only [receive, startDelay]
      split
      · exact ⟨rfl, .tick _⟩
      split
      · exact ⟨rfl, .nothing⟩
      split
      · exact ⟨rfl, .tick _⟩
      split <;> exact ⟨rfl, .nothing⟩
    | metro clock armed? =>
      simp only [receive, startMetro]
      split
      · split <;> exact ⟨rfl, .nothing⟩
      split
      · exact ⟨rfl, .tickAndBang _ _ _⟩
      split
      · exact ⟨rfl, .nothing⟩
      split
      · split
        · exact ⟨rfl, .nothing⟩
        · exact ⟨rfl, .tickAndBang _ _ _⟩
      · exact ⟨rfl, .nothing⟩

theorem sound_tick (here : Surroundings) (timing : Timing) : timing.Sound (timing.tick here) := by
  cases timing with
  | delay clock milliseconds armed? =>
    cases armed? with
    | none => exact ⟨rfl, .nothing⟩
    | some due =>
      simp only [tick]
      split
      · exact ⟨rfl, .bang _ _⟩
      · exact ⟨rfl, .nothing⟩
  | metro clock armed? =>
    cases armed? with
    | none => exact ⟨rfl, .nothing⟩
    | some due =>
      simp only [tick]
      split
      · exact ⟨rfl, .tickAndBang _ _ _⟩
      · exact ⟨rfl, .nothing⟩

end Timing

/-- No wait is longer than the longest. -/
theorem waitOfMilliseconds_le (milliseconds : Float) : waitOfMilliseconds milliseconds ≤ longestWait := by
  unfold waitOfMilliseconds
  split
  · dsimp only
    split
    · exact Nat.zero_le _
    · exact Nat.min_le_left _ _
  · exact Nat.zero_le _

end Patchbay
