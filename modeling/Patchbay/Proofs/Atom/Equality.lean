import Patchbay.Proofs.Atom.Unchanged
import Patchbay.Proofs.Number.Integers

/-!
# The laws of equality

Atoms without NaN equal themselves, and equality may be turned around. It is passed on from one pair to the
next but for one case: numbers of different variants are compared as doubles and integers among themselves
are not, so two different integers may both equal the double that they share. Such integers are not below
2^53. If there is such a triple at one place inside three atoms, the first does not equal the third; if
there is none, it does.
-/

namespace Patchbay

/-- A relation may be turned around if it may be between the members of two lists. -/
theorem forall₂_symm_of_mem {α : Type} {R : α → α → Prop} {first second : List α}
    (h : ∀ a ∈ first, ∀ b ∈ second, R a b → R b a) (hpairs : List.Forall₂ R first second) :
    List.Forall₂ R second first := by
  induction hpairs with
  | nil => exact .nil
  | @cons a b first second hpair _ ih =>
    exact .cons (h a List.mem_cons_self b List.mem_cons_self hpair)
      (ih fun a ha b hb => h a (List.mem_cons_of_mem _ ha) b (List.mem_cons_of_mem _ hb))

/-- A relation is passed on from two pairs of lists to a third, unless an obstacle stands at one place. -/
theorem forall₂_trans_iff {α : Type} {R : α → α → Prop} {Obstacle : α → α → α → Prop}
    {first second third : List α}
    (h : ∀ a ∈ first, ∀ b ∈ second, ∀ c ∈ third, R a b → R b c → (R a c ↔ ¬ Obstacle a b c))
    (hfirst : List.Forall₂ R first second) (hsecond : List.Forall₂ R second third) :
    List.Forall₂ R first third ↔ ∀ (place : Nat) (a b c : α), first[place]? = some a → second[place]? = some b →
      third[place]? = some c → ¬ Obstacle a b c := by
  induction hfirst generalizing third with
  | nil =>
    cases hsecond
    simp
  | @cons a b first second hab _ ih =>
    cases hsecond with
    | @cons _ c _ third hbc hsecond =>
      have hrest := ih (fun a ha b hb c hc => h a (List.mem_cons_of_mem _ ha) b
        (List.mem_cons_of_mem _ hb) c (List.mem_cons_of_mem _ hc)) hsecond
      rw [List.forall₂_cons, hrest,
        h a List.mem_cons_self b List.mem_cons_self c List.mem_cons_self hab hbc]
      constructor
      · rintro ⟨hhead, htail⟩ place a' b' c' ha hb hc
        cases place with
        | zero =>
          obtain rfl := Option.some.inj ha
          obtain rfl := Option.some.inj hb
          obtain rfl := Option.some.inj hc
          exact hhead
        | succ place => exact htail place a' b' c' ha hb hc
      · exact fun hall => ⟨hall 0 a b c rfl rfl rfl, fun place => hall (place + 1)⟩

namespace Atom

/-- Decide whether an atom is no NaN and no dico with several entries under one key, leaving aside the
atoms inside it. -/
def isProper : Atom → Bool
  | .double x _ => !x.isNaN
  | .dico entries _ => decide (Keyed.keys entries).Nodup
  | _ => true

/-- No atom that is proper counts as a NaN. -/
theorem isNaN_of_isProper {atom : Atom} (h : atom.every isProper = true) :
    atom.toDouble.isNaN = false := by
  refine isNaN_toDouble atom fun x minus heq => ?_
  subst heq
  have hproper : isProper (.double x minus) = true := of_every h
  rw [isProper, Bool.not_eq_true'] at hproper
  exact hproper

/-! ### Turned around -/

/-- An atom equals itself. -/
theorem same_self {atom : Atom} (h : atom.every isProper = true) : same atom atom = true := by
  induction atom using Atom.induction with
  | undefined => rfl
  | bool value => exact beq_self_eq_true value
  | long n => exact beq_self_eq_true n
  | symbol text => exact beq_self_eq_true text
  | double x minus => exact Double.beq_self (isNaN_of_isProper h)
  | vector items ih =>
    rw [every_vector] at h
    rw [same, sameList_iff, List.forall₂_same]
    exact fun item hitem => ih item hitem (h.2 item hitem)
  | dico entries identity ih =>
    rw [every_dico, isProper, decide_eq_true_eq] at h
    rw [same, beq_self_eq_true, Bool.true_and, sameEntries_iff]
    intro entry hentry
    refine ⟨entry.2, Keyed.get?_of_mem h.1 hentry, ?_⟩
    rw [sameList_iff, List.forall₂_same]
    exact fun item hitem => ih entry hentry item hitem (h.2 entry hentry item hitem)

/-- Equality with a number may be turned around. -/
theorem same_symm_of_isNumber {a b : Atom} (hnumber : a.isNumber = true) (h : same a b = true) :
    same b a = true := by
  have hdoubles : (a.toDouble == b.toDouble) = true → (b.toDouble == a.toDouble) = true := BEq.symm
  cases a with
  | bool value =>
    cases b with
    | bool other => exact beq_iff_eq.mpr (beq_iff_eq.mp h).symm
    | long | double => exact hdoubles h
    | _ => cases h
  | long n =>
    cases b with
    | long other => exact beq_iff_eq.mpr (beq_iff_eq.mp h).symm
    | bool | double => exact hdoubles h
    | _ => cases h
  | double x minus =>
    cases b with
    | bool | long | double => exact hdoubles h
    | _ => cases h
  | _ => cases hnumber

/-- Dicos with distinct keys that hold equal lists under the keys of the first have the same keys. -/
theorem exists_entry_of_sameEntries {first second : Dico} (hfirst : (Keyed.keys first).Nodup)
    (hsecond : (Keyed.keys second).Nodup) (hlength : first.length = second.length)
    (h : sameEntries first second = true) {entry : String × List Atom} (hentry : entry ∈ second) :
    ∃ items, (entry.1, items) ∈ first ∧ sameList items entry.2 = true := by
  rw [sameEntries_iff] at h
  have hsubset : Keyed.keys first ⊆ Keyed.keys second := by
    intro key hkey
    obtain ⟨found, hfound, rfl⟩ := List.mem_map.mp hkey
    obtain ⟨items, hget, -⟩ := h found hfound
    exact List.mem_map.mpr ⟨_, Keyed.mem_of_get? hget, rfl⟩
  have hperm : (Keyed.keys first).Perm (Keyed.keys second) := by
    refine (hfirst.subperm hsubset).perm_of_length_le ?_
    simp [Keyed.keys, hlength]
  obtain ⟨found, hfound, hkey⟩ := List.mem_map.mp (hperm.mem_iff.mpr (List.mem_map_of_mem hentry))
  obtain ⟨items, hget, hsame⟩ := h found hfound
  rw [hkey, Keyed.get?_of_mem hsecond hentry] at hget
  obtain rfl := Option.some.inj hget
  exact ⟨found.2, hkey ▸ hfound, hsame⟩

/-- Equality may be turned around. -/
theorem same_symm {a b : Atom} (ha : a.every isProper = true) (hb : b.every isProper = true)
    (h : same a b = true) : same b a = true := by
  induction a using Atom.induction generalizing b with
  | undefined =>
    cases b with
    | undefined => rfl
    | _ => cases h
  | symbol text =>
    cases b with
    | symbol other => exact beq_iff_eq.mpr (beq_iff_eq.mp h).symm
    | _ => cases h
  | bool | long | double => exact same_symm_of_isNumber rfl h
  | vector items ih =>
    cases b with
    | vector others =>
      rw [every_vector] at ha hb
      rw [same, sameList_iff] at h ⊢
      exact forall₂_symm_of_mem
        (fun item hitem other hother => ih item hitem (ha.2 item hitem) (hb.2 other hother)) h
    | _ => cases h
  | dico entries identity ih =>
    cases b with
    | dico others other =>
      rw [every_dico, isProper, decide_eq_true_eq] at ha hb
      rw [same, Bool.and_eq_true, beq_iff_eq] at h ⊢
      obtain ⟨hlength, hentries⟩ := h
      refine ⟨hlength.symm, sameEntries_iff.mpr fun entry hentry => ?_⟩
      obtain ⟨items, hmem, hsame⟩ :=
        exists_entry_of_sameEntries ha.1 hb.1 hlength hentries hentry
      refine ⟨items, Keyed.get?_of_mem ha.1 hmem, ?_⟩
      rw [sameList_iff] at hsame ⊢
      exact forall₂_symm_of_mem (fun item hitem found hfound =>
        ih _ hmem item hitem (ha.2 _ hmem item hitem) (hb.2 entry hentry found hfound)) hsame
    | _ => cases h

/-! ### Passed on -/

/-- At one place inside three atoms, the same in each, the first and the third hold two different
integers, neither of them below 2^53, and the second holds a double. -/
inductive Clash : Atom → Atom → Atom → Prop
  | long {m n : Int64} (x : Float) (minus : Bool) (hne : m ≠ n) (hm : 2 ^ 53 ≤ m.toInt.natAbs)
    (hn : 2 ^ 53 ≤ n.toInt.natAbs) : Clash (.long m) (.double x minus) (.long n)
  | vector {first second third : List Atom} {a b c : Atom} (place : Nat)
    (ha : first[place]? = some a) (hb : second[place]? = some b) (hc : third[place]? = some c)
    (h : Clash a b c) : Clash (.vector first) (.vector second) (.vector third)
  | dico {first second third : Dico} {i j k : Nat} {xs ys zs : List Atom} {a b c : Atom}
    (key : String) (hx : Keyed.get? first key = some xs) (hy : Keyed.get? second key = some ys)
    (hz : Keyed.get? third key = some zs) (place : Nat) (ha : xs[place]? = some a)
    (hb : ys[place]? = some b) (hc : zs[place]? = some c) (h : Clash a b c) :
    Clash (.dico first i) (.dico second j) (.dico third k)

/-- Numbers of the same value are equal unless they are different integers. -/
theorem same_of_toDouble {a c : Atom} (ha : a.isNumber = true) (hc : c.isNumber = true)
    (h : (a.toDouble == c.toDouble) = true) (hlong : ∀ m n, a = .long m → c = .long n → m = n) :
    same a c = true := by
  cases a with
  | bool value =>
    cases c with
    | bool other =>
      have hdiffer : ∀ value other : Bool, value ≠ other →
          (toDouble (.bool value) == toDouble (.bool other)) = false := by decide +kernel
      refine beq_iff_eq.mpr (not_imp_comm.mp (hdiffer value other) ?_)
      exact fun hfalse => Bool.false_ne_true (hfalse.symm.trans h)
    | long | double => exact h
    | _ => cases hc
  | long m =>
    cases c with
    | long n => exact beq_iff_eq.mpr (hlong m n rfl rfl)
    | bool | double => exact h
    | _ => cases hc
  | double x minus =>
    cases c with
    | bool | long | double => exact h
    | _ => cases hc
  | _ => cases ha

/-- A truth value shares its double with no integer but its own. -/
theorem eq_of_toDouble_bool {n : Int64} {value : Bool}
    (h : (Long.toDouble n == toDouble (.bool value)) = true) : n = if value then 1 else 0 := by
  have hown : toDouble (.bool value) = Long.toDouble (if value then 1 else 0) := by
    cases value <;> decide +kernel
  by_contra hne
  rw [hown] at h
  have hlarge := Long.two_pow_le_of_beq (Ne.symm hne) (BEq.symm h)
  cases value <;> exact absurd hlarge (by decide)

/-- Equality is passed on between numbers unless they clash. -/
theorem same_trans_iff_of_isNumber {a b c : Atom} (hnumber : a.isNumber = true)
    (ha : a.every isProper = true) (hb : b.every isProper = true) (hab : same a b = true)
    (hbc : same b c = true) : same a c = true ↔ ¬ Clash a b c := by
  obtain ⟨hnumberB, hvalueB⟩ := toDouble_of_same hnumber (isNaN_of_isProper ha) hab
  obtain ⟨hnumberC, hvalueC⟩ := toDouble_of_same hnumberB (isNaN_of_isProper hb) hbc
  have hvalue : (a.toDouble == c.toDouble) = true := BEq.trans hvalueB hvalueC
  constructor
  · intro hsame hclash
    cases hclash with
    | long x minus hne => exact hne (beq_iff_eq.mp hsame)
    | vector | dico => cases hnumber
  · intro hclash
    refine same_of_toDouble hnumber hnumberC hvalue fun m n hm hn => ?_
    subst hm hn
    by_contra hne
    cases b with
    | bool value =>
      exact hne ((eq_of_toDouble_bool hvalueB).trans (eq_of_toDouble_bool (BEq.symm hvalueC)).symm)
    | long k => exact hne ((beq_iff_eq.mp hab).trans (beq_iff_eq.mp hbc))
    | double x minus =>
      exact hclash (.long x minus hne (Long.two_pow_le_of_beq hne hvalue)
        (Long.two_pow_le_of_beq (Ne.symm hne) (BEq.symm hvalue)))
    | _ => cases hnumberB

/-- Equality is passed on between lists unless there is a clash at one place. -/
theorem sameList_trans_iff {first second third : List Atom}
    (h : ∀ a ∈ first, ∀ b ∈ second, ∀ c ∈ third, same a b = true → same b c = true →
      (same a c = true ↔ ¬ Clash a b c))
    (hfirst : sameList first second = true) (hsecond : sameList second third = true) :
    sameList first third = true ↔ ∀ (place : Nat) (a b c : Atom), first[place]? = some a →
      second[place]? = some b → third[place]? = some c → ¬ Clash a b c := by
  rw [sameList_iff] at hfirst hsecond ⊢
  exact forall₂_trans_iff h hfirst hsecond

/-- Equality is passed on unless there is a clash. -/
theorem same_trans_iff {a b c : Atom} (ha : a.every isProper = true) (hb : b.every isProper = true)
    (hc : c.every isProper = true) (hab : same a b = true) (hbc : same b c = true) :
    same a c = true ↔ ¬ Clash a b c := by
  induction a using Atom.induction generalizing b c with
  | undefined =>
    cases b with
    | undefined =>
      cases c with
      | undefined => exact ⟨fun _ hclash => (by cases hclash), fun _ => rfl⟩
      | _ => cases hbc
    | _ => cases hab
  | symbol text =>
    cases b with
    | symbol other =>
      obtain rfl : text = other := beq_iff_eq.mp hab
      exact ⟨fun _ hclash => (by cases hclash), fun _ => hbc⟩
    | _ => cases hab
  | bool | long | double => exact same_trans_iff_of_isNumber rfl ha hb hab hbc
  | vector first ih =>
    cases b with
    | vector second =>
      cases c with
      | vector third =>
        rw [every_vector] at ha hb hc
        rw [same] at hab hbc ⊢
        rw [sameList_trans_iff (fun a hmem b hmemB c hmemC => ih a hmem (ha.2 a hmem) (hb.2 b hmemB)
          (hc.2 c hmemC)) hab hbc]
        constructor
        · intro hnone hclash
          cases hclash with
          | vector place ha hb hc h => exact hnone place _ _ _ ha hb hc h
        · exact fun hclash place a b c ha hb hc h => hclash (.vector place ha hb hc h)
      | _ => cases hbc
    | _ => cases hab
  | dico first i ih =>
    cases b with
    | dico second j =>
      cases c with
      | dico third k =>
        rw [every_dico, isProper, decide_eq_true_eq] at ha hb hc
        rw [same, Bool.and_eq_true, beq_iff_eq, sameEntries_iff] at hab hbc ⊢
        -- Under each key of the first there are equal lists in all three.
        have hentries : ∀ entry ∈ first, ∃ ys zs, Keyed.get? second entry.1 = some ys ∧
            Keyed.get? third entry.1 = some zs ∧ (sameList entry.2 zs = true ↔
              ∀ (place : Nat) (a b c : Atom), entry.2[place]? = some a → ys[place]? = some b →
                zs[place]? = some c → ¬ Clash a b c) := by
          intro entry hentry
          obtain ⟨ys, hys, hfirst⟩ := hab.2 entry hentry
          obtain ⟨zs, hzs, hsecond⟩ := hbc.2 _ (Keyed.mem_of_get? hys)
          refine ⟨ys, zs, hys, hzs, sameList_trans_iff (fun a hmem b hmemB c hmemC => ?_) hfirst hsecond⟩
          exact ih entry hentry a hmem (ha.2 entry hentry a hmem)
            (hb.2 _ (Keyed.mem_of_get? hys) b hmemB) (hc.2 _ (Keyed.mem_of_get? hzs) c hmemC)
        constructor
        · rintro ⟨-, hsame⟩ hclash
          cases hclash with
          | dico key hx hy hz place ha hb hc h =>
            obtain ⟨ys, zs, hys, hzs, hiff⟩ := hentries _ (Keyed.mem_of_get? hx)
            obtain ⟨found, hfound, hequal⟩ := hsame _ (Keyed.mem_of_get? hx)
            obtain rfl := Option.some.inj (hys.symm.trans hy)
            obtain rfl := Option.some.inj (hzs.symm.trans hz)
            obtain rfl := Option.some.inj (hfound.symm.trans hz)
            exact hiff.mp hequal place _ _ _ ha hb hc h
        · refine fun hclash => ⟨hab.1.trans hbc.1, fun entry hentry => ?_⟩
          obtain ⟨ys, zs, hys, hzs, hiff⟩ := hentries entry hentry
          refine ⟨zs, hzs, hiff.mpr fun place a b c hxa hyb hzc h => hclash ?_⟩
          exact .dico entry.1 (Keyed.get?_of_mem ha.1 hentry) hys hzs place hxa hyb hzc h
      | _ => cases hbc
    | _ => cases hab

/-- Decide whether an atom is no integer from 2^53 on, leaving aside the atoms inside it. -/
def isSmall : Atom → Bool
  | .long n => n.toInt.natAbs < 2 ^ 53
  | _ => true

/-- Small integers clash with nothing. -/
theorem not_clash_of_small {a b c : Atom} (h : a.every isSmall = true) : ¬ Clash a b c := by
  intro hclash
  induction hclash with
  | long x minus hne hm => exact Nat.not_lt.mpr hm (of_decide_eq_true h)
  | vector place ha _ _ _ ih => exact ih ((every_vector.mp h).2 _ (List.mem_of_getElem? ha))
  | dico key hx _ _ place ha _ _ _ ih =>
    exact ih ((every_dico.mp h).2 _ (Keyed.mem_of_get? hx) _ (List.mem_of_getElem? ha))

/-- So equality is passed on where all integers are small. -/
theorem same_trans_of_small {a b c : Atom} (hsmall : a.every isSmall = true)
    (ha : a.every isProper = true) (hb : b.every isProper = true) (hc : c.every isProper = true)
    (hab : same a b = true) (hbc : same b c = true) : same a c = true :=
  (same_trans_iff ha hb hc hab hbc).mpr (not_clash_of_small hsmall)

/-- The laws of equality, for atoms without NaN whose dicos have one entry under each key: an atom equals
itself, equality may be turned around, and it is passed on unless two different integers clash over a
double. -/
theorem laws_of_same {a b c : Atom} (ha : a.every isProper = true) (hb : b.every isProper = true)
    (hc : c.every isProper = true) :
    same a a = true ∧ (same a b = true → same b a = true) ∧
      (same a b = true → same b c = true → (same a c = true ↔ ¬ Clash a b c)) :=
  ⟨same_self ha, same_symm ha hb, same_trans_iff ha hb hc⟩

/-- Three variants of one number, each in a dico inside a vector. -/
theorem laws_of_same_nested :
    same (.vector [.dico [("gain", [.long 1])]]) (.vector [.dico [("gain", [.long 1])]]) = true ∧
      same (.vector [.dico [("gain", [.double 1.0])]]) (.vector [.dico [("gain", [.long 1])]]) = true ∧
      (same (.vector [.dico [("gain", [.long 1])]]) (.vector [.dico [("gain", [.bool true])]]) = true ↔
        ¬ Clash (.vector [.dico [("gain", [.long 1])]]) (.vector [.dico [("gain", [.double 1.0])]])
          (.vector [.dico [("gain", [.bool true])]])) := by
  obtain ⟨hself, hsymm, htrans⟩ := @laws_of_same (.vector [.dico [("gain", [.long 1])]])
    (.vector [.dico [("gain", [.double 1.0])]]) (.vector [.dico [("gain", [.bool true])]])
    (by decide +kernel) (by decide +kernel) (by decide +kernel)
  exact ⟨hself, hsymm (by decide +kernel), htrans (by decide +kernel) (by decide +kernel)⟩

/-- The integers 2^53 + 1 and 2^53 both equal the double 2^53 and differ: equality is no equivalence. -/
theorem not_forall_same_trans :
    ¬ ∀ a b c : Atom, a.every isProper = true → b.every isProper = true → c.every isProper = true →
      same a a = true ∧ (same a b = true → same b a = true) ∧
        (same a b = true → same b c = true → same a c = true) := by
  intro hall
  have hpassed := (hall (.long 9007199254740993) (.double 9007199254740992.0) (.long 9007199254740992)
    (by decide) (by decide +kernel) (by decide)).2.2 (by decide +kernel) (by decide +kernel)
  exact absurd hpassed (by decide)

end Atom

end Patchbay
