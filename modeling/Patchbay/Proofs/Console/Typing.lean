import Patchbay.Proofs.Atom.Words
import Patchbay.Proofs.Console.Use

/-!
# Messages and values typed at the console

A line is trimmed, its command is split off, the rest is trimmed again, and the first words are split off
one by one, before what is left is read as atoms. None of this touches a text of integers and symbols:
it starts and ends with a digit, a minus sign or a character of a symbol, and blanks inside a symbol are
quoted. So typing such a line does what sending the message or setting the attribute does.
-/

namespace Patchbay

open Text

/-! ### The text of atoms -/

namespace Words

/-- Integers and symbols. -/
inductive Exact : Atom → Prop
  | long (n : Int64) : Exact (.long n)
  | symbol (text : String) : Exact (.symbol text)

theorem Exact.token {atom : Atom} (h : Exact atom) : Token atom := by
  cases h with
  | long n => exact .long n
  | symbol text => exact .symbol text

/-- They are read as they were written. -/
theorem read_write_exact {atoms : List Atom} (h : ∀ atom ∈ atoms, Exact atom) :
    read (write atoms) = atoms := by
  rw [read_write fun atom hatom => (h atom hatom).token]
  refine (List.map_congr_left fun atom hatom => ?_).trans (List.map_id atoms)
  cases h atom hatom with
  | long | symbol => rfl

/-- The text of such an atom is not empty, and neither starts nor ends with a blank. -/
theorem Exact.word {atom : Atom} (h : Exact atom) : Trimmed (word atom) ∧ word atom ≠ [] := by
  cases h with
  | long n =>
    have hword : IsWord (Numeral.int n.toInt) :=
      ⟨Numeral.int_ne_nil _, fun c hc => isBlank_of_mem_letters (Numeral.mem_letters_of_mem_int hc)⟩
    exact ⟨hword.trimmed, hword.ne_nil⟩
  | symbol text =>
    rw [Words.word, Words.symbol]
    split
    · next hbare =>
      obtain ⟨hne, -, hblank, -⟩ := bare_of_isBare hbare
      have hword : IsWord text.toList := ⟨hne, hblank⟩
      exact ⟨hword.trimmed, hne⟩
    · have hmark : IsWord ['"'] := by decide
      have hquote : quote plainCode text.toList =
          ['"'] ++ (escape plainCode text.toList ++ ['"']) := by simp [quote]
      rw [hquote]
      exact ⟨hmark.trimmed.append hmark.trimmed hmark.ne_nil hmark.ne_nil _, List.cons_ne_nil _ _⟩

/-- Neither does the text of some. -/
theorem trimmed_write_cons {atom : Atom} {atoms : List Atom} (h : ∀ other ∈ atom :: atoms, Exact other) :
    Trimmed (write (atom :: atoms)) ∧ write (atom :: atoms) ≠ [] := by
  induction atoms generalizing atom with
  | nil =>
    have hword := (h atom List.mem_cons_self).word
    simpa [write, words, List.intercalate_singleton] using hword
  | cons next atoms ih =>
    obtain ⟨hatom, hatoms⟩ := List.forall_mem_cons.mp h
    obtain ⟨hrest, hmore⟩ := ih hatoms
    obtain ⟨hword, hsome⟩ := hatom.word
    have hwrite : write (atom :: next :: atoms) =
        Words.word atom ++ ([' '] ++ write (next :: atoms)) := by
      simp [write, words, List.intercalate_cons_cons]
    rw [hwrite]
    exact ⟨hword.append hrest hsome hmore [' '], List.append_ne_nil_of_left_ne_nil hsome _⟩

/-- The text of such atoms neither starts nor ends with a blank. -/
theorem trimmed_write {atoms : List Atom} (h : ∀ atom ∈ atoms, Exact atom) : Trimmed (write atoms) := by
  cases atoms with
  | nil => exact trimmed_nil
  | cons atom atoms => exact (trimmed_write_cons h).1

end Words

namespace Command

/-- The digits of a number are a word. -/
theorem isWord_nat (n : Nat) : IsWord (Numeral.nat n) where
  ne_nil := Numeral.nat_ne_nil n
  plain _ hc :=
    Words.isBlank_of_mem_letters (Numeral.mem_letters_of_isDigit (Numeral.isDigit_of_mem_nat hc))

/-- A number is read off its digits. -/
theorem number_nat {bound n : Nat} (h : n < bound) : number bound (Numeral.nat n) = .ok n := by
  have hsign : ∀ rest, Numeral.nat n ≠ '+' :: rest := by
    intro rest hplus
    have hdigit := Numeral.isDigit_of_mem_nat (hplus ▸ List.mem_cons_self : '+' ∈ Numeral.nat n)
    exact absurd hdigit (by decide)
  have hsome : (Numeral.nat n).isEmpty = false := List.isEmpty_eq_false_iff.mpr (Numeral.nat_ne_nil n)
  have hall : (Numeral.nat n).all Numeral.isDigit = true :=
    List.all_eq_true.mpr fun c hc => Numeral.isDigit_of_mem_nat hc
  unfold number
  split
  · next rest hplus => exact absurd hplus (hsign rest)
  · dsimp only
    rw [hsome, hall, Numeral.natValue_nat, decide_eq_true h]
    rfl

/-- Words in front of a text are split off it, and the text stays as it is. -/
theorem leading_spoken (form : String) {words : List (List Char)} (hwords : ∀ word ∈ words, IsWord word)
    {text : List Char} (htext : Trimmed text) :
    leading form words.length (trimBack (spoken words text)) = .ok (words, text) := by
  induction words with
  | nil =>
    rw [spoken, htext.trimBack_eq]
    exact congrArg (fun text => Except.ok ([], text)) htext.trimFront_eq
  | cons word words ih =>
    obtain ⟨hword, hrest⟩ := List.forall_mem_cons.mp hwords
    have hfront : trimFront (trimBack (word ++ ' ' :: spoken words text)) =
        trimBack (word ++ ' ' :: spoken words text) := by
      rw [hword.trimBack_append]
      exact hword.trimFront_append _
    have hsome : (trimBack (word ++ ' ' :: spoken words text)).isEmpty = false := by
      rw [hword.trimBack_append, List.isEmpty_eq_false_iff]
      exact List.append_ne_nil_of_left_ne_nil hword.ne_nil _
    rw [spoken, List.length_cons, leading, hfront, hsome, if_neg Bool.false_ne_true,
      hword.splitAtBlank_append]
    dsimp only
    rw [ih hrest]
    rfl

/-- In a line that starts with words the first one is the command, and the others are left in front of what
follows. -/
theorem read_spoken {word next : List Char} (hword : IsWord word) (hcomment : word.head? ≠ some '#')
    (hnext : IsWord next) (words : List (List Char)) (text : List Char) :
    read (spoken (word :: next :: words) text) =
      ofWord (String.ofList word) (trimBack (spoken (next :: words) text)) := by
  have htrim : trim (spoken (word :: next :: words) text) =
      trimBack (word ++ ' ' :: spoken (next :: words) text) := by
    rw [trim, spoken, hword.trimFront_append]
  have hrest : trim (trimBack (spoken (next :: words) text)) = trimBack (spoken (next :: words) text) := by
    rw [trim, spoken, hnext.trimBack_append, hnext.trimFront_append, ← hnext.trimBack_append,
      trimBack_trimBack]
  unfold read
  dsimp only
  rw [htrim, hword.splitAtBlank_append]
  dsimp only
  rw [hrest]
  split
  · next hnil =>
    rw [hword.trimBack_append] at hnil
    exact absurd hnil (List.append_ne_nil_of_left_ne_nil hword.ne_nil _)
  · next rest hmark =>
    rw [hword.trimBack_append] at hmark
    have hhead := congrArg List.head? hmark
    rw [List.head?_append_of_ne_nil _ hword.ne_nil] at hhead
    exact absurd hhead hcomment
  · rfl

/-- A text behind a number and a word, as they are split off it. -/
theorem leading_two (form : String) (id : Nat) {word : List Char} (hword : IsWord word) {text : List Char}
    (htext : Trimmed text) :
    leading form 2 (trimBack (spoken [Numeral.nat id, word] text)) = .ok ([Numeral.nat id, word], text) :=
  leading_spoken form (List.forall_mem_cons.mpr ⟨isWord_nat id, List.forall_mem_singleton.mpr hword⟩) htext

variable {id : Nat} {atoms : List Atom}

/-- A line that sends a message is read as it is meant. -/
theorem read_send (hid : id < idBound) {inlet : Nat} (hinlet : inlet < indexBound)
    (hatoms : ∀ atom ∈ atoms, Words.Exact atom) :
    read (s!"send {id} {inlet} ".toList ++ Words.write atoms) = .ok (.send id inlet atoms) := by
  have hline : s!"send {id} {inlet} ".toList ++ Words.write atoms =
      spoken ["send".toList, Numeral.nat id, Numeral.nat inlet] (Words.write atoms) := by
    simp [spoken, Numeral.nat, Nat.repr]
    rfl
  have hsend : IsWord "send".toList := by decide
  rw [hline, read_spoken hsend (by decide) (isWord_nat id), String.ofList_toList, ofWord,
    leading_two _ id (isWord_nat inlet) (Words.trimmed_write hatoms)]
  change (do
    let id ← number idBound (Numeral.nat id)
    let inlet ← number indexBound (Numeral.nat inlet)
    pure (send id inlet (Words.read (Words.write atoms)))) = _
  rw [number_nat hid, number_nat hinlet, Words.read_write_exact hatoms]
  rfl

/-- A line that sets an attribute is read as it is meant. -/
theorem read_set (hid : id < idBound) {name : String} (hname : IsWord name.toList)
    (hatoms : ∀ atom ∈ atoms, Words.Exact atom) :
    read (s!"set {id} {name} ".toList ++ Words.write atoms) = .ok (.set id name atoms) := by
  have hline : s!"set {id} {name} ".toList ++ Words.write atoms =
      spoken ["set".toList, Numeral.nat id, name.toList] (Words.write atoms) := by
    simp [spoken, Numeral.nat, Nat.repr]
    rfl
  have hset : IsWord "set".toList := by decide
  rw [hline, read_spoken hset (by decide) (isWord_nat id), String.ofList_toList, ofWord,
    leading_two _ id hname (Words.trimmed_write hatoms)]
  change (do
    let id ← number idBound (Numeral.nat id)
    pure (set id (String.ofList name.toList) (Words.read (Words.write atoms)))) = _
  rw [number_nat hid, String.ofList_toList, Words.read_write_exact hatoms]
  rfl

end Command

namespace Console

variable {m : Type → Type} [Monad m] [Storage m] {console : Console} {id : Nat} {atoms : List Atom}

/-- What is answered to a message that was sent. -/
def sendAnswer (id : Nat) (atoms : List Atom) : Except PatchError Bool → Except ConsoleError Answer
  | .error error => .error (.patch error)
  | .ok true => .ok (.text "")
  | .ok false => .ok (.text (s!"{id} ignored '" ++ String.ofList (Words.write atoms) ++ "'"))

/-- A line with a message sends it. -/
theorem executeLine_send (console : Console) (hid : id < Command.idBound) {inlet : Nat}
    (hinlet : inlet < Command.indexBound) (hatoms : ∀ atom ∈ atoms, Words.Exact atom) :
    (console.executeLine (s!"send {id} {inlet} ".toList ++ Words.write atoms) : m _) =
      pure ({ console with studio := (console.studio.send ⟨console.number, id⟩ inlet atoms).1 },
        sendAnswer id atoms (console.studio.send ⟨console.number, id⟩ inlet atoms).2) := by
  have hanswer : ∀ result : Except PatchError Bool,
      ((result.mapError .patch).map fun understood => Answer.text (if understood then ""
        else s!"{id} ignored '" ++ String.ofList (Words.write atoms) ++ "'")) = sendAnswer id atoms result := by
    rintro (error | understood | understood) <;> rfl
  rw [executeLine, Command.read_send hid hinlet hatoms]
  exact congrArg pure (Prod.ext rfl (hanswer _))

/-- A box that is there is in the patch that is being edited. -/
theorem patch?_of_box? {box : Box} (hbox : console.patch.box? id = some box) :
    console.studio.patch? console.number = some console.patch := by
  cases hpatch : console.studio.patch? console.number with
  | none =>
    rw [Console.patch, hpatch] at hbox
    cases hbox
  | some patch => rw [Console.patch, hpatch, Option.getD_some]

/-- A line with the value of an attribute sets it, and the answer shows it. -/
theorem executeLine_set (hid : id < Command.idBound) (hatoms : ∀ atom ∈ atoms, Words.Exact atom)
    {name : String} (hname : IsWord name.toList) {box : Box} (hbox : console.patch.box? id = some box)
    (hhas : box.sheet.has name = true) :
    ∃ patch changed shown, console.patch.setAttribute id name atoms = .ok (patch, changed) ∧
      patch.box? id = some shown ∧
      (console.executeLine (s!"set {id} {name} ".toList ++ Words.write atoms) : m _) =
        pure (console.setPatch patch, .ok (.text (showAttribute shown name))) := by
  obtain ⟨⟨patch, changed⟩, hset⟩ : ∃ result, console.patch.setAttribute id name atoms = .ok result := by
    unfold Patch.setAttribute
    rw [hbox]
    dsimp only
    split <;> exact ⟨_, rfl⟩
  obtain ⟨shown, hshown, hstill⟩ := Patch.box?_setAttribute hbox hhas hset
  have hpatch : (console.setPatch patch).patch = patch := by
    have hfound := Studio.patch?_setPatch (patch?_of_box? hbox) patch
    exact congrArg (Option.getD · {}) hfound
  have hbefore : console.boxWith id name = .ok box := by rw [boxWith, hbox]; exact if_pos hhas
  have hafter : (console.setPatch patch).boxWith id name = .ok shown := by
    rw [boxWith, hpatch, hshown]
    exact if_pos hstill
  refine ⟨patch, changed, shown, hset, hshown, ?_⟩
  have hperform : console.perform (.set id name atoms) =
      (console.setPatch patch, .ok (.text (showAttribute shown name))) := by
    simp only [perform, hbefore, hset, get, hafter, Except.map]
  rw [executeLine, Command.read_set hid hname hatoms]
  exact congrArg pure hperform

/-- Typing a line that names a box, an inlet or an attribute, and then integers and symbols, is sending
them or setting the attribute to them, and nothing else. The attributes of boxes can be named in this way
at every console in use. -/
theorem executeLine_typed (console : Console) (hid : id < Command.idBound)
    (hatoms : ∀ atom ∈ atoms, Words.Exact atom) :
    (∀ inlet < Command.indexBound,
      (console.executeLine (s!"send {id} {inlet} ".toList ++ Words.write atoms) : m _) =
        let (studio, result) := console.studio.send ⟨console.number, id⟩ inlet atoms
        pure ({ console with studio }, sendAnswer id atoms result)) ∧
    ∀ box, console.patch.box? id = some box → ∀ name, box.sheet.has name = true →
      (console.InUse → IsWord name.toList) ∧ (IsWord name.toList →
        ∃ patch changed shown, console.patch.setAttribute id name atoms = .ok (patch, changed) ∧
          patch.box? id = some shown ∧
          (console.executeLine (s!"set {id} {name} ".toList ++ Words.write atoms) : m _) =
            pure (console.setPatch patch, .ok (.text (showAttribute shown name)))) := by
  refine ⟨fun inlet hinlet => executeLine_send console hid hinlet hatoms,
    fun box hbox name hhas => ⟨fun hused => ?_, fun hname => executeLine_set hid hatoms hname hbox hhas⟩⟩
  have hmem : box ∈ console.patch.everyone := List.mem_append_left _ (List.mem_of_find?_eq_some hbox)
  exact hused.worded.patch.sheets box hmem name (Keyed.has_iff.mp hhas)

/-- A console with a box that prints. -/
def printing : Console :=
  ((Console.executeLine (openEmpty {} "") "create print".toList : StateM Disk _).run {}).1.1

/-- Symbols that have to be quoted are sent to it, and it is hidden by a value that has more than one atom. -/
theorem executeLine_typed_printing :
    let atoms : List Atom := [.long (-7), .symbol "", .symbol "a  b "]
    (0 < Command.idBound ∧ ∀ atom ∈ atoms, Words.Exact atom) ∧
    (printing.executeLine ("send 0 0 ".toList ++ Words.write atoms) : StateM Disk _) =
      (let (studio, result) := printing.studio.send ⟨printing.number, 0⟩ 0 atoms
      pure ({ printing with studio }, sendAnswer 0 atoms result)) ∧
    ∃ patch changed shown, printing.patch.setAttribute 0 "hidden" atoms = .ok (patch, changed) ∧
      patch.box? 0 = some shown ∧
      (printing.executeLine ("set 0 hidden ".toList ++ Words.write atoms) : StateM Disk _) =
        pure (printing.setPatch patch, .ok (.text (showAttribute shown "hidden"))) := by
  intro atoms
  have hatoms : ∀ atom ∈ atoms, Words.Exact atom := by
    simp only [atoms, List.forall_mem_cons]
    exact ⟨.long _, .symbol _, .symbol _, List.forall_mem_nil _⟩
  have hhas : (printing.patch.box? 0).any (·.sheet.has "hidden") = true := by decide +kernel
  obtain ⟨box, hbox, hhas⟩ := (Option.any_eq_true _ _).mp hhas
  have hid : 0 < Command.idBound := by decide
  obtain ⟨hsend, hset⟩ := executeLine_typed (m := StateM Disk) printing hid hatoms
  have hused : printing.InUse := .typed (.opened {} "") "create print".toList {}
  obtain ⟨hword, hset⟩ := hset box hbox "hidden" hhas
  exact ⟨⟨hid, hatoms⟩, hsend 0 (by decide), hset (hword hused)⟩

end Console

end Patchbay
