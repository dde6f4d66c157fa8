import Patchbay.Proofs.Atom.Ambiguous
import Patchbay.Proofs.Studio.Revision

/-!
# Boxes by typed and by written texts

A text that is typed is read at once, and the atoms describe the box. A text that is written in a file is
one symbol, which is read when the box is built. But atoms that are one symbol pass for such a text, so
that a typed text which is one symbol is read twice. This makes a difference for a quoted symbol with
something in it that is not one symbol itself.
-/

namespace Patchbay

namespace Model

variable {model : Model} {site : Site} {plan : Plan Machine}

/-- No box has an attribute that is named like the text of its description. -/
theorem name_ne_text (hplan : model.plan site = .ok plan) :
    ∀ entry ∈ plan.sheet, entry.2.name ≠ "text" := by
  have hcommon : ∀ entry ∈ Box.commonSheet, entry.2.name ≠ "text" := by
    intro entry hentry htext
    have hkey : entry.1 ∈ Keyed.keys Box.commonSheet := List.mem_map_of_mem hentry
    rw [← Box.fresh_commonSheet.sound.names entry hentry, htext, Box.keys_commonSheet] at hkey
    exact absurd hkey (by decide)
  have hown : ∀ attr ∈ plan.attributes, attr.name ≠ "text" := by
    by_cases hbuiltin : model.isBuiltin = true
    · rw [attributes_of_plan hbuiltin hplan]
      split
      · have hinterval : "interval" ≠ "text" := by decide
        exact List.forall_mem_singleton.mpr hinterval
      · exact List.forall_mem_nil _
    · cases model with
      | idle | twin | late | agent =>
        obtain rfl := Except.ok.inj hplan
        exact List.forall_mem_nil _
      | panel =>
        obtain rfl := Except.ok.inj hplan
        have hnames : ∀ name ∈ (Bench.planPanel site).attributes.map Attribute.name, name ≠ "text" := by
          change ∀ name ∈ ["label", "scratch", "notes"], name ≠ "text"
          decide
        exact fun attr hattr => hnames attr.name (List.mem_map_of_mem hattr)
      | _ => exact absurd rfl hbuiltin
  rw [Plan.sheet]
  generalize Box.commonSheet = sheet at hcommon
  generalize plan.attributes = attributes at hown
  induction attributes generalizing sheet with
  | nil => exact hcommon
  | cons attr attributes ih =>
    rw [List.forall_mem_cons] at hown
    refine ih _ (fun entry hentry => ?_) hown.2
    rcases Keyed.mem_set hentry with hold | rfl
    · exact hcommon entry hold
    · exact hown.1

/-- So no attribute is restored from a text. -/
theorem restore_text (hplan : model.plan site = .ok plan) (atoms : List Atom) :
    plan.sheet.restore [("text", atoms)] true = plan.sheet := by
  refine Sheet.restore_of_absent (fun entry hentry => ?_) true
  simpa [Keyed.has, Keyed.get?] using (name_ne_text hplan entry hentry).symm

end Model

namespace Patch

/-- What a text describes is named by the atoms that it stands for. -/
theorem describe_text (atoms : List Atom) : describe [("text", atoms)] = named (spoken atoms) := rfl

/-- Atoms that are not one symbol stand for themselves. -/
theorem spoken_eq_self {atoms : List Atom} (h : ∀ name, atoms ≠ [.symbol name]) : spoken atoms = atoms := by
  unfold spoken
  split
  · next name => exact absurd rfl (h name)
  · rfl

/-- Atoms that are read of a text describe the same as the text, unless it is ambiguous. -/
theorem describe_read {text : String} (h : ¬Words.Ambiguous text.toList) :
    describe [("text", Words.read text.toList)] = describe [("text", [.symbol text])] := by
  have hwritten : spoken [.symbol text] = Words.read text.toList := rfl
  rw [describe_text, describe_text, hwritten]
  by_cases hsymbol : ∃ name, Words.read text.toList = [.symbol name]
  · obtain ⟨name, hread⟩ := hsymbol
    rw [hread]
    change named (Words.read name.toList) = _
    by_cases hname : name = ""
    · rw [hname, String.toList_empty, Words.read]
      rfl
    · rw [not_not.mp fun hagain => h ⟨name, hread, hname, hagain⟩]
  · rw [spoken_eq_self fun name hread => hsymbol ⟨name, hread⟩]

/-- An ambiguous text describes a box that has the whole symbol for its name, and what is read of it
describes none, or one of another name. -/
theorem describe_of_ambiguous {text : String} (h : Words.Ambiguous text.toList) :
    ∃ name, describe [("text", [.symbol text])] = .ok (name, []) ∧
      ∀ other arguments, describe [("text", Words.read text.toList)] = .ok (other, arguments) →
        other ≠ name := by
  obtain ⟨name, hread, hname, hagain⟩ := h
  have hwritten : spoken [.symbol text] = Words.read text.toList := rfl
  have htyped : spoken [.symbol name] = Words.read name.toList := rfl
  refine ⟨name, ?_, ?_⟩
  · rw [describe_text, hwritten, hread]
    exact named_eq_ok_iff.mpr ⟨rfl, hname⟩
  · rintro other arguments hother rfl
    rw [hread, describe_text, htyped] at hother
    obtain ⟨hothers, -⟩ := named_eq_ok_iff.mp hother
    rw [hothers, Words.eq_nil_of_read_eq_cons hothers] at hagain
    exact hagain rfl

end Patch

namespace Studio

variable {studio : Studio} {number : Nat} {patch : Patch}

/-- Texts that describe the same box build the same box: nothing else is made of the text. -/
theorem create_text_congr (studio : Studio) (number : Nat) {atoms others : List Atom}
    (h : Patch.describe [("text", atoms)] = Patch.describe [("text", others)]) :
    studio.create number [("text", atoms)] = studio.create number [("text", others)] := by
  have hassemble : ∀ {model : Model} {site : Site} {plan : Plan Machine} (service : Nat),
      model.plan site = .ok plan →
      assemble site plan [("text", atoms)] service = assemble site plan [("text", others)] service := by
    intro model site plan service hplan
    have hsame := (Model.restore_text hplan atoms).trans (Model.restore_text hplan others).symm
    simp only [assemble]
    rw [← Plan.sheet, hsame]
  have hkeys : ∀ atoms : List Atom, Keyed.keys [("text", atoms)] = ["text"] := fun _ => rfl
  unfold create
  rw [h]
  simp only [hkeys]
  cases studio.patch? number with
  | none => rfl
  | some patch =>
  cases Patch.describe [("text", others)] with
  | error error => rfl
  | ok described =>
  obtain ⟨name, arguments⟩ := described
  dsimp only
  cases studio.catalog.get? name with
  | none => rfl
  | some registration =>
  dsimp only
  cases hplan : registration.model.plan ⟨name, arguments, ["text"], patch.reserve.2⟩ with
  | error reason => rfl
  | ok plan =>
    dsimp only
    rw [hassemble _ hplan]

/-- What building a box comes to: an error, or a box with its name, its text, its inlets and its outlets. -/
abbrev Newcomer := Except PatchError (Option (String × String × List Inlet × List Outlet))

/-- What arrives in a patch. A box that has been built stands behind the others. -/
def newcomer (number : Nat) (made : Studio × Except PatchError Nat) : Newcomer :=
  made.2.map fun _ => ((made.1.patch? number).bind fun patch => patch.boxes.getLast?).map fun box =>
    (box.name, box.text, box.inlets, box.outlets)

/-- It is about a box of this name, which is not known, cannot be built or has been built. -/
inductive Concerns (name : String) : Newcomer → Prop
  | unknown : Concerns name (.error (.unknownObject name))
  | failed (reason : String) : Concerns name (.error (.construction name reason))
  | built (text : String) (inlets : List Inlet) (outlets : List Outlet) :
    Concerns name (.ok (some (name, text, inlets, outlets)))

/-- Nothing is about boxes of two names. -/
theorem Concerns.name_eq {name other : String} {found : Newcomer} (h : Concerns name found)
    (hother : Concerns other found) : name = other := by
  cases h <;> cases hother <;> rfl

/-- Either nothing is described, or what arrives is about a box of the name that is described. -/
theorem newcomer_create (hpatch : studio.patch? number = some patch) (detail : Dico) :
    match Patch.describe detail with
    | .error error => newcomer number (studio.create number detail) = .error error
    | .ok (name, _) => Concerns name (newcomer number (studio.create number detail)) := by
  rcases create_inversion hpatch detail with ⟨error, hdescribe, hcreate⟩ |
    ⟨name, arguments, hdescribe, ⟨-, hcreate⟩ |
      ⟨registration, -, ⟨reason, -, hcreate⟩ | ⟨plan, -, hresult, service, hlater⟩⟩⟩ <;>
    rw [hdescribe]
  · rw [hcreate]
    rfl
  · rw [hcreate]
    exact .unknown
  · rw [hcreate]
    exact .failed reason
  · obtain ⟨last, hlast, hbody⟩ := Patch.getLast?_install patch.reserve.1
      (assemble ⟨name, arguments, detail.keys, patch.nextId⟩ plan detail service)
    have hname : last.body.name = name := congrArg Box.name hbody
    rw [newcomer, hresult, hlater]
    simp only [Except.map, Option.bind_some, hlast, Option.map_some]
    exact hname ▸ .built _ _ _

/-- Take any text. Unless it is ambiguous, typing it and writing it to a file come to the same studio with
the same box, or to the same error. If it is ambiguous, they never do: the errors are different, or one of
them builds a box and the other does not, or the boxes have different names. No text without quotes is
ambiguous. -/
theorem create_typed_as_written (hpatch : studio.patch? number = some patch) (text : String) :
    (¬Words.Ambiguous text.toList →
      studio.createFromText number text = studio.create number [("text", [.symbol text])]) ∧
    (Words.Ambiguous text.toList →
      newcomer number (studio.createFromText number text) ≠
        newcomer number (studio.create number [("text", [.symbol text])])) ∧
    ('"' ∉ text.toList → ¬Words.Ambiguous text.toList) := by
  refine ⟨fun hclear => create_text_congr studio number (Patch.describe_read hclear), fun h => ?_, ?_⟩
  · obtain ⟨name, hwritten, htyped⟩ := Patch.describe_of_ambiguous h
    have hname := newcomer_create hpatch [("text", [.symbol text])]
    have hother := newcomer_create hpatch [("text", Words.read text.toList)]
    rw [hwritten] at hname
    intro hsame
    rw [← hsame] at hname
    cases hdescribe : Patch.describe [("text", Words.read text.toList)] with
    | error error =>
      rw [hdescribe] at hother
      rw [createFromText, hother, describe_error hdescribe] at hname
      cases hname
    | ok described =>
      rw [hdescribe] at hother
      exact htyped described.1 described.2 hdescribe (hother.name_eq hname)
  · intro hquote h
    obtain ⟨before, run, name, after, htext, -⟩ := h.exists_quoted
    exact hquote (by simp [htext])

/-- It is all the same whether an oscillator is typed or written, unless its text is quoted. -/
theorem create_typed_as_written_oscillator :
    fresh.createFromText 0 "osc~ 440" = fresh.create 0 [("text", [.symbol "osc~ 440"])] ∧
      newcomer 0 (fresh.createFromText 0 "\"osc~ 440\"") ≠
        newcomer 0 (fresh.create 0 [("text", [.symbol "\"osc~ 440\""])]) := by
  have hpatch : fresh.patch? 0 = some {} := rfl
  have hclear := create_typed_as_written hpatch "osc~ 440"
  have hquoted := create_typed_as_written hpatch "\"osc~ 440\""
  refine ⟨hclear.1 (hclear.2.2 (by decide)), hquoted.2.1 ⟨"osc~ 440", ?_, by decide, ?_⟩⟩
  · exact (Words.read_quote "osc~ 440".toList []).trans (by simp [Words.read])
  · intro hone
    have htwo : (Words.read "osc~ 440".toList).length = 2 := by decide +kernel
    rw [hone] at htwo
    cases htwo

/-- So typing and writing do not agree on all texts: the quoted oscillator is built when it is typed, and
not when it is written. -/
theorem not_forall_typed_as_written :
    ¬ ∀ (studio : Studio) (number : Nat) (patch : Patch), studio.patch? number = some patch →
      ∀ text, newcomer number (studio.createFromText number text) =
        newcomer number (studio.create number [("text", [.symbol text])]) := by
  intro h
  have hsame := h fresh 0 {} rfl "\"osc~ 440\""
  have htyped : (newcomer 0 (fresh.createFromText 0 "\"osc~ 440\"")).isOk = true := by decide +kernel
  have hwritten : (newcomer 0 (fresh.create 0 [("text", [.symbol "\"osc~ 440\""])])).isOk = false := by
    decide +kernel
  rw [hsame, hwritten] at htyped
  cases htyped

end Studio

end Patchbay
