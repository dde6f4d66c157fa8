import Mathlib.Data.List.Dedup
import Mathlib.Data.List.Perm.Subperm
import Mathlib.Logic.Relation
import Mathlib.Data.Fintype.EquivFin
import Mathlib.Order.WellFounded
import Patchbay.Signal.Order

/-!
# What the order of execution holds

While boxes are taken off the queue, the count of every box is the number of wires from boxes that
have not been taken yet, and the queue holds exactly the boxes whose count has come down to nothing.
Parallel wires are counted one by one, so a box is freed once, by the last of them.

When the queue is empty, the boxes left over are each fed by another box left over. There are
finitely many, so each of them lies on a cycle or is fed from one: an order of all boxes exists
exactly when the wires form no cycle.
-/

namespace Patchbay.Order

/-- The number of wires that still hold a box back, given the boxes that have been taken. -/
def unmet (feeds : Feeds) (taken : List Nat) (box : Nat) : Nat :=
  feeds.countP fun feed => feed.2 == box && !taken.contains feed.1

/-- Before any box is taken, all wires hold back the box that they end at. -/
theorem unmet_nil (feeds : Feeds) (box : Nat) : unmet feeds [] box = inDegree feeds box := by
  simp [unmet, inDegree]

/-- A box is held back no longer when all boxes that feed it have been taken. -/
theorem unmet_eq_zero_iff (feeds : Feeds) (taken : List Nat) (box : Nat) :
    unmet feeds taken box = 0 ↔ ∀ feed ∈ feeds, feed.2 = box → feed.1 ∈ taken := by
  simp [unmet, List.countP_eq_zero]

/-- A wire holds back the box that it ends at until the box that it comes from has been taken. -/
theorem unmet_cons (feed : Nat × Nat) (rest : Feeds) (taken : List Nat) (box : Nat) :
    unmet (feed :: rest) taken box =
      unmet rest taken box + if feed.2 = box ∧ feed.1 ∉ taken then 1 else 0 := by
  simp [unmet, List.countP_cons]

/-- Parallel wires feed a box once each. -/
theorem count_fedBy_cons (feed : Nat × Nat) (rest : Feeds) (box other : Nat) :
    (fedBy (feed :: rest) box).count other =
      (fedBy rest box).count other + if feed.1 = box ∧ feed.2 = other then 1 else 0 := by
  unfold fedBy
  by_cases h : feed.1 = box
  · simp [h, List.count_cons]
  · simp [h]

/-- Taking a box lifts its wires and no others, one for every wire. -/
theorem unmet_eq_add (feeds : Feeds) {taken : List Nat} {box : Nat} (hbox : box ∉ taken)
    (other : Nat) :
    unmet feeds taken other =
      unmet feeds (taken ++ [box]) other + (fedBy feeds box).count other := by
  induction feeds with
  | nil => rfl
  | cons feed rest ih =>
    rw [unmet_cons, unmet_cons, count_fedBy_cons, ih]
    by_cases hsource : feed.1 = box
    · simp only [hsource, hbox, List.mem_append, List.mem_singleton]
      split <;> simp_all
      omega
    · simp only [hsource, List.mem_append, List.mem_singleton, or_false, false_and, if_false]
      omega

/-- Releasing boxes takes one off the count of each, once for every time it is named. -/
theorem release_fst (waiting : Nat → Nat) (targets : List Nat) (box : Nat) :
    (release waiting targets).1 box = waiting box - targets.count box := by
  induction targets generalizing waiting with
  | nil => rfl
  | cons target rest ih =>
    simp only [release, ih, List.count_cons]
    by_cases h : box = target
    · subst h
      simp
      omega
    · simp [h, Ne.symm h]

/-- The boxes that become free are those of which all that they wait for is released. They stand in the
order of the last wires that lead to them. -/
theorem release_snd_eq (waiting : Nat → Nat) (targets : List Nat)
    (henough : ∀ box, targets.count box ≤ waiting box) :
    (release waiting targets).2 = targets.dedup.filter fun box => waiting box == targets.count box := by
  induction targets generalizing waiting with
  | nil => rfl
  | cons target rest ih =>
    have hhead := henough target
    rw [List.count_cons_self] at hhead
    have hrest : ∀ other, rest.count other ≤
        (if other = target then waiting target - 1 else waiting other) := by
      intro other
      have h := henough other
      rw [List.count_cons] at h
      split
      · next heq => subst heq; simp at h; omega
      · next hne => simpa [Ne.symm hne] using h
    have hfree : ∀ box, ((if box = target then waiting target - 1 else waiting box) == rest.count box) =
        (waiting box == (target :: rest).count box) := by
      intro box
      rw [List.count_cons, Bool.eq_iff_iff, beq_iff_eq, beq_iff_eq]
      split
      · next heq => subst heq; simp; omega
      · next hne => simp [Ne.symm hne]
    simp only [release, ih _ hrest, hfree]
    by_cases hagain : target ∈ rest
    · have hpos := List.count_pos_iff.mpr hagain
      rw [List.dedup_cons_of_mem hagain, if_neg (by omega)]
    · have hlast : waiting target - 1 = 0 ↔ waiting target = (target :: rest).count target := by
        rw [List.count_cons_self, List.count_eq_zero.mpr hagain]
        omega
      rw [List.dedup_cons_of_notMem hagain, List.filter_cons]
      simp only [hlast, beq_iff_eq]

/-- A box becomes free exactly if all that it waits for is released. -/
theorem mem_release_snd (waiting : Nat → Nat) (targets : List Nat)
    (henough : ∀ box, targets.count box ≤ waiting box) (box : Nat) :
    box ∈ (release waiting targets).2 ↔ 0 < targets.count box ∧ waiting box = targets.count box := by
  rw [release_snd_eq waiting targets henough, List.mem_filter, List.mem_dedup, List.count_pos_iff,
    beq_iff_eq]

/-- No box becomes free twice, not even over parallel wires. -/
theorem nodup_release_snd (waiting : Nat → Nat) (targets : List Nat)
    (henough : ∀ box, targets.count box ≤ waiting box) : (release waiting targets).2.Nodup := by
  rw [release_snd_eq waiting targets henough]
  exact targets.nodup_dedup.filter _

/-- How far the boxes have been taken: what holds between two boxes taken off the queue. -/
structure Progress (boxes : List Nat) (feeds : Feeds) (taken queue : List Nat)
    (waiting : Nat → Nat) : Prop where
  waiting_eq : ∀ box, waiting box = unmet feeds taken box
  nodup : (taken ++ queue).Nodup
  subset : taken ++ queue ⊆ boxes
  free_iff : ∀ box ∈ boxes, box ∈ taken ++ queue ↔ unmet feeds taken box = 0
  /-- Every box taken comes after all boxes that feed it. -/
  ordered : ∀ before box after, taken = before ++ box :: after →
    ∀ feed ∈ feeds, feed.2 = box → feed.1 ∈ before

variable {boxes : List Nat} {feeds : Feeds}

/-- At first nothing is taken, and the boxes that nothing feeds are in the queue. -/
theorem Progress.start (hnodup : boxes.Nodup) :
    Progress boxes feeds [] (boxes.filter fun box => inDegree feeds box == 0) (inDegree feeds) where
  waiting_eq box := (unmet_nil feeds box).symm
  nodup := by simpa using hnodup.filter _
  subset := by simp
  free_iff box hbox := by simp [unmet_nil, hbox]
  ordered := by simp

/-- The box in front of the queue has not been taken yet. -/
theorem Progress.notMem {taken queue : List Nat} {waiting : Nat → Nat} {box : Nat}
    (h : Progress boxes feeds taken (box :: queue) waiting) : box ∉ taken := fun hmem =>
  List.disjoint_of_nodup_append h.nodup hmem List.mem_cons_self

/-- So all its wires still hold back the boxes that they end at. -/
theorem Progress.count_fedBy_le {taken queue : List Nat} {waiting : Nat → Nat} {box : Nat}
    (h : Progress boxes feeds taken (box :: queue) waiting) (other : Nat) :
    (fedBy feeds box).count other ≤ waiting other := by
  rw [h.waiting_eq, unmet_eq_add feeds h.notMem other]
  omega

/-- Every box in the queue that is taken leaves the counts and the queue in order. -/
theorem Progress.take {taken queue : List Nat} {waiting : Nat → Nat} {box : Nat}
    (hinside : ∀ feed ∈ feeds, feed.2 ∈ boxes)
    (h : Progress boxes feeds taken (box :: queue) waiting) :
    Progress boxes feeds (taken ++ [box]) (queue ++ (release waiting (fedBy feeds box)).2)
      (release waiting (fedBy feeds box)).1 := by
  have hsplit : taken ++ box :: queue = (taken ++ [box]) ++ queue := by simp
  have hnodup := h.nodup
  have hsubset := h.subset
  have hfree := h.free_iff
  rw [hsplit] at hnodup hsubset hfree
  have hadd := unmet_eq_add feeds h.notMem
  have hmem := mem_release_snd waiting (fedBy feeds box) h.count_fedBy_le
  have hwired : ∀ other ∈ fedBy feeds box, other ∈ boxes := by
    intro other hother
    simp only [fedBy, List.mem_map, List.mem_filter] at hother
    obtain ⟨feed, ⟨hfeed, -⟩, rfl⟩ := hother
    exact hinside feed hfeed
  have hlate : ∀ other ∈ (release waiting (fedBy feeds box)).2, other ∉ taken ++ [box] ++ queue := by
    intro other hother hold
    have hzero := (hfree other (hsubset hold)).mp hold
    have hpos := (hmem other).mp hother
    rw [h.waiting_eq, hzero] at hpos
    omega
  refine ⟨?_, ?_, ?_, ?_, ?_⟩
  · intro other
    rw [release_fst, h.waiting_eq, hadd other]
    omega
  · rw [← List.append_assoc]
    refine List.Nodup.append hnodup (nodup_release_snd waiting _ h.count_fedBy_le) ?_
    intro other hold hnew
    exact hlate other hnew hold
  · rw [← List.append_assoc]
    intro other hother
    rcases List.mem_append.mp hother with hold | hnew
    · exact hsubset hold
    · exact hwired other (List.count_pos_iff.mp ((hmem other).mp hnew).1)
  · intro other hother
    rw [← List.append_assoc, List.mem_append, hfree other hother, hmem other, h.waiting_eq,
      hadd other]
    omega
  · intro before last after heq feed hfeed hlast
    rcases List.eq_nil_or_concat after with rfl | ⟨front, final, rfl⟩
    · obtain ⟨rfl, hboxEq⟩ := List.append_inj' heq rfl
      have hlastEq : box = last := by simpa using hboxEq
      subst hlastEq
      have hzero := (h.free_iff box (h.subset (by simp))).mp (by simp)
      exact (unmet_eq_zero_iff feeds taken box).mp hzero feed hfeed hlast
    · have heq' : taken ++ [box] = (before ++ last :: front) ++ [final] := by simpa using heq
      exact h.ordered before last front (List.append_inj' heq' rfl).1 feed hfeed hlast

/-- With enough steps, boxes are taken until the queue is empty. -/
theorem Progress.run {taken queue : List Nat} {waiting : Nat → Nat} {steps : Nat}
    (hinside : ∀ feed ∈ feeds, feed.2 ∈ boxes) (h : Progress boxes feeds taken queue waiting)
    (hsteps : boxes.length ≤ taken.length + steps) :
    ∃ after, Progress boxes feeds (taken ++ run feeds steps queue waiting) [] after := by
  induction steps generalizing taken queue waiting with
  | zero =>
    have hlength := (List.subperm_of_subset h.nodup h.subset).length_le
    have hempty : queue = [] := by
      rw [List.length_append] at hlength
      exact List.length_eq_zero_iff.mp (by omega)
    subst hempty
    exact ⟨waiting, by simpa [Order.run] using h⟩
  | succ steps ih =>
    cases queue with
    | nil => exact ⟨waiting, by simpa [Order.run] using h⟩
    | cons box queue =>
      have hsteps : boxes.length ≤ (taken ++ [box]).length + steps := by
        simp only [List.length_append, List.length_singleton]
        omega
      obtain ⟨after, hafter⟩ := ih (h.take hinside) hsteps
      exact ⟨after, by simpa [Order.run] using hafter⟩

/-- The order of execution is what has been taken when the queue is empty. -/
theorem execution_progress (hnodup : boxes.Nodup) (hinside : ∀ feed ∈ feeds, feed.2 ∈ boxes) :
    ∃ waiting, Progress boxes feeds (execution boxes feeds) [] waiting := by
  have hstart : Progress boxes feeds [] _ _ := Progress.start hnodup
  simpa [execution] using hstart.run hinside (by simp)

/-- One box feeds another if a wire leads from the first to the second. -/
def Feeding (feeds : Feeds) (source target : Nat) : Prop := (source, target) ∈ feeds

/-- No box feeds itself, be it over any number of others. -/
def Acyclic (feeds : Feeds) : Prop := ∀ box, ¬ Relation.TransGen (Feeding feeds) box box

/-- No box comes twice in the order of execution. -/
theorem nodup_execution (hnodup : boxes.Nodup) (hinside : ∀ feed ∈ feeds, feed.2 ∈ boxes) :
    (execution boxes feeds).Nodup := by
  obtain ⟨waiting, h⟩ := execution_progress hnodup hinside
  simpa using h.nodup

/-- Only boxes that are listed come in the order of execution. -/
theorem execution_subset (hnodup : boxes.Nodup) (hinside : ∀ feed ∈ feeds, feed.2 ∈ boxes) :
    execution boxes feeds ⊆ boxes := by
  obtain ⟨waiting, h⟩ := execution_progress hnodup hinside
  simpa using h.subset

/-- Every box in the order of execution comes after all boxes that feed it. -/
theorem execution_ordered (hnodup : boxes.Nodup) (hinside : ∀ feed ∈ feeds, feed.2 ∈ boxes)
    {before after : List Nat} {box : Nat} (heq : execution boxes feeds = before ++ box :: after) :
    ∀ feed ∈ feeds, feed.2 = box → feed.1 ∈ before := by
  obtain ⟨waiting, h⟩ := execution_progress hnodup hinside
  exact h.ordered before box after heq

/-- A box comes in the order of execution exactly when all boxes that feed it do. -/
theorem mem_execution_iff (hnodup : boxes.Nodup) (hinside : ∀ feed ∈ feeds, feed.2 ∈ boxes)
    {box : Nat} (hbox : box ∈ boxes) :
    box ∈ execution boxes feeds ↔
      ∀ feed ∈ feeds, feed.2 = box → feed.1 ∈ execution boxes feeds := by
  obtain ⟨waiting, h⟩ := execution_progress hnodup hinside
  simpa [unmet_eq_zero_iff] using h.free_iff box hbox

/-- The order is complete if no box is missing from it by count. -/
theorem execution_perm_of_length (hnodup : boxes.Nodup)
    (hinside : ∀ feed ∈ feeds, feed.2 ∈ boxes)
    (hlength : (execution boxes feeds).length = boxes.length) :
    (execution boxes feeds).Perm boxes :=
  (List.subperm_of_subset (nodup_execution hnodup hinside)
    (execution_subset hnodup hinside)).perm_of_length_le hlength.ge

/-- A box that feeds another comes strictly before it. -/
theorem idxOf_lt_of_feeding (hnodup : boxes.Nodup) (hinside : ∀ feed ∈ feeds, feed.2 ∈ boxes)
    {source target : Nat} (hfeeding : Feeding feeds source target)
    (htarget : target ∈ execution boxes feeds) :
    (execution boxes feeds).idxOf source < (execution boxes feeds).idxOf target := by
  obtain ⟨before, after, heq⟩ := List.append_of_mem htarget
  have hsource := execution_ordered hnodup hinside heq (source, target) hfeeding rfl
  have hunique := nodup_execution hnodup hinside
  rw [heq] at hunique ⊢
  have htargetNew : target ∉ before := fun hmem =>
    List.disjoint_of_nodup_append hunique hmem List.mem_cons_self
  rw [List.idxOf_append_of_mem hsource, List.idxOf_append_of_notMem htargetNew,
    List.idxOf_cons_self]
  exact Nat.lt_of_lt_of_le (List.idxOf_lt_length_of_mem hsource) (Nat.le_add_right _ _)

/-- A box is fed from a cycle if it lies on one, or if wires lead to it from one, over any number of
other boxes. -/
def FedFromCycle (feeds : Feeds) (box : Nat) : Prop :=
  ∃ source, Relation.TransGen (Feeding feeds) source source ∧
    Relation.ReflTransGen (Feeding feeds) source box

/-- What leads to a box in the order of execution comes strictly before it. -/
theorem idxOf_lt_of_transGen (hnodup : boxes.Nodup) (hinside : ∀ feed ∈ feeds, feed.2 ∈ boxes)
    {source target : Nat} (hpath : Relation.TransGen (Feeding feeds) source target)
    (htarget : target ∈ execution boxes feeds) :
    source ∈ execution boxes feeds ∧
      (execution boxes feeds).idxOf source < (execution boxes feeds).idxOf target := by
  have hstep : ∀ {source target}, Feeding feeds source target → target ∈ execution boxes feeds →
      source ∈ execution boxes feeds := fun hfeeding hmem =>
    (mem_execution_iff hnodup hinside (execution_subset hnodup hinside hmem)).mp hmem _ hfeeding rfl
  induction hpath with
  | single hfeeding => exact ⟨hstep hfeeding htarget, idxOf_lt_of_feeding hnodup hinside hfeeding htarget⟩
  | tail _ hfeeding ih =>
    obtain ⟨hsource, hlt⟩ := ih (hstep hfeeding htarget)
    exact ⟨hsource, hlt.trans (idxOf_lt_of_feeding hnodup hinside hfeeding htarget)⟩

/-- The boxes in the order of execution are those that are not fed from a cycle: finitely many boxes
cannot go on being fed by one another without feeding each other in a circle. -/
theorem mem_execution_iff_not_fedFromCycle (hnodup : boxes.Nodup)
    (hinside : ∀ feed ∈ feeds, feed.1 ∈ boxes ∧ feed.2 ∈ boxes) {box : Nat} (hbox : box ∈ boxes) :
    box ∈ execution boxes feeds ↔ ¬FedFromCycle feeds box := by
  have htargets : ∀ feed ∈ feeds, feed.2 ∈ boxes := fun feed hfeed => (hinside feed hfeed).2
  constructor
  · rintro hmem ⟨source, hcycle, hpath⟩
    have hsource : source ∈ execution boxes feeds := by
      rcases Relation.reflTransGen_iff_eq_or_transGen.mp hpath with rfl | hpath
      · exact hmem
      · exact (idxOf_lt_of_transGen hnodup htargets hpath hmem).1
    exact lt_irrefl _ (idxOf_lt_of_transGen hnodup htargets hcycle hsource).2
  · intro hfree
    let upstream (source target : {box // box ∈ boxes}) : Prop :=
      Relation.TransGen (Feeding feeds) source.val target.val ∧ ¬FedFromCycle feeds target.val
    have : IsTrans _ upstream := ⟨fun _ _ _ hfirst hsecond => ⟨hfirst.1.trans hsecond.1, hsecond.2⟩⟩
    have : Std.Irrefl upstream := ⟨fun box hcycle => hcycle.2 ⟨box, hcycle.1, .refl⟩⟩
    have hwf : WellFounded upstream := Finite.wellFounded_of_trans_of_irrefl upstream
    induction hcurrent : (⟨box, hbox⟩ : {box // box ∈ boxes}) using hwf.induction generalizing box with
    | _ current ih =>
      subst hcurrent
      rw [mem_execution_iff hnodup htargets hbox]
      intro feed hfeed htarget
      subst htarget
      have hsource : ¬FedFromCycle feeds feed.1 := fun ⟨source, hcycle, hpath⟩ =>
        hfree ⟨source, hcycle, hpath.tail hfeed⟩
      exact ih ⟨feed.1, (hinside feed hfeed).1⟩ ⟨.single hfeed, hfree⟩ (hinside feed hfeed).1 hsource rfl

/-- In a complete order no box can feed itself, since it would come before itself. -/
theorem acyclic_of_perm (hnodup : boxes.Nodup) (hinside : ∀ feed ∈ feeds, feed.2 ∈ boxes)
    (hperm : (execution boxes feeds).Perm boxes) : Acyclic feeds := by
  intro box hcycle
  have hbox : box ∈ boxes := by
    cases hcycle with
    | single hfeeding => exact hinside _ hfeeding
    | tail _ hfeeding => exact hinside _ hfeeding
  exact lt_irrefl _ (idxOf_lt_of_transGen hnodup hinside hcycle (hperm.mem_iff.mpr hbox)).2

/-- Without a cycle no box is left over. -/
theorem subset_execution_of_acyclic (hnodup : boxes.Nodup)
    (hinside : ∀ feed ∈ feeds, feed.1 ∈ boxes ∧ feed.2 ∈ boxes) (hacyclic : Acyclic feeds) :
    boxes ⊆ execution boxes feeds := fun _ hbox =>
  (mem_execution_iff_not_fedFromCycle hnodup hinside hbox).mpr fun ⟨source, hcycle, _⟩ =>
    hacyclic source hcycle

/-- All boxes can be put in an order exactly when the wires form no cycle. -/
theorem execution_length_iff_acyclic (hnodup : boxes.Nodup)
    (hinside : ∀ feed ∈ feeds, feed.1 ∈ boxes ∧ feed.2 ∈ boxes) :
    (execution boxes feeds).length = boxes.length ↔ Acyclic feeds := by
  have htargets : ∀ feed ∈ feeds, feed.2 ∈ boxes := fun feed hfeed => (hinside feed hfeed).2
  constructor
  · intro hlength
    exact acyclic_of_perm hnodup htargets (execution_perm_of_length hnodup htargets hlength)
  · intro hacyclic
    have hsubset := subset_execution_of_acyclic hnodup hinside hacyclic
    exact Nat.le_antisymm
      (List.subperm_of_subset (nodup_execution hnodup htargets)
        (execution_subset hnodup htargets)).length_le
      (List.subperm_of_subset hnodup hsubset).length_le

end Patchbay.Order
