import FrameGraph.DataFlow
import Mathlib.Data.Fintype.EquivFin
import Mathlib.Logic.Relation

/-!
The loop that orders positions. Main statements: the loop never counts a link twice and never takes
a position twice; every position it takes stands after its sources; what it leaves is reachable from
a cycle; and no other order of all positions comes before the one it finds.
-/

namespace FrameGraph

/-- Whatever feeds an element of the order stands before it. -/
def SourcesFirst {α : Type} (feeds : α → α → Prop) (order : List α) : Prop :=
  ∀ before x after, order = before ++ x :: after → ∀ a, feeds a x → a ∈ before

namespace SourcesFirst

variable {α : Type} {feeds : α → α → Prop} {order : List α}

theorem nil : SourcesFirst feeds [] := by
  intro before x after split
  simp at split

theorem mem_of_feeds (first : SourcesFirst feeds order) {a x : α} (member : x ∈ order)
    (edge : feeds a x) : a ∈ order := by
  obtain ⟨before, after, rfl⟩ := List.append_of_mem member
  exact List.mem_append_left _ (first before x after rfl a edge)

theorem of_append {suffix : List α} (first : SourcesFirst feeds (order ++ suffix)) :
    SourcesFirst feeds order := by
  intro before x after split
  exact first before x (after ++ suffix) (by simp [split])

theorem concat (first : SourcesFirst feeds order) {x : α}
    (sources : ∀ a, feeds a x → a ∈ order) : SourcesFirst feeds (order ++ [x]) := by
  intro before y after split
  rcases List.eq_nil_or_concat after with rfl | ⟨initial, last, rfl⟩
  · obtain ⟨rfl, heads⟩ := List.append_inj' split rfl
    obtain rfl : x = y := by simpa using heads
    exact sources
  · have regrouped : order ++ [x] = (before ++ y :: initial) ++ [last] := by
      simpa using split
    obtain ⟨rfl, -⟩ := List.append_inj' regrouped rfl
    exact first before y initial rfl

theorem not_cycle (first : SourcesFirst feeds order) (nodup : order.Nodup) {x : α}
    (member : x ∈ order) : ¬ Relation.TransGen feeds x x := by
  obtain ⟨before, after, rfl⟩ := List.append_of_mem member
  have absent : x ∉ before := by
    intro early
    exact (List.nodup_append.mp nodup).2.2 x early x (by simp) rfl
  have early : ∀ a b, Relation.TransGen feeds a b → b = x ∨ b ∈ before → a ∈ before := by
    intro a b path
    induction path using Relation.TransGen.head_induction_on with
    | single edge =>
        intro place
        rcases place with rfl | place
        · exact first before _ after rfl _ edge
        · exact first.of_append.mem_of_feeds place edge
    | head edge _ ih =>
        intro place
        exact first.of_append.mem_of_feeds (ih place) edge
  intro cycle
  exact absent (early x x cycle (.inl rfl))

end SourcesFirst

namespace Schedule

def targets (edges : List (Nat × Nat)) (current : Nat) : List Nat :=
  (edges.filter (·.1 = current)).map (·.2)

/-- The number of links into a position whose source is not among those taken. -/
def waiting (edges : List (Nat × Nat)) (taken : List Nat) (i : Nat) : Nat :=
  edges.countP fun edge => edge.2 = i ∧ edge.1 ∉ taken

@[simp] theorem targets_cons (edge : Nat × Nat) (edges : List (Nat × Nat)) (current : Nat) :
    targets (edge :: edges) current =
      if edge.1 = current then edge.2 :: targets edges current else targets edges current := by
  by_cases source : edge.1 = current <;> simp [targets, source]

@[simp] theorem waiting_cons (edge : Nat × Nat) (edges : List (Nat × Nat)) (taken : List Nat)
    (i : Nat) :
    waiting (edge :: edges) taken i =
      waiting edges taken i + if edge.2 = i ∧ edge.1 ∉ taken then 1 else 0 := by
  simp [waiting, List.countP_cons]

theorem waiting_nil (edges : List (Nat × Nat)) (i : Nat) :
    waiting edges [] i = edges.countP (·.2 = i) := by
  simp [waiting]

theorem waiting_eq_zero_iff {edges : List (Nat × Nat)} {taken : List Nat} {i : Nat} :
    waiting edges taken i = 0 ↔ ∀ a, (a, i) ∈ edges → a ∈ taken := by
  simp only [waiting, List.countP_eq_zero, decide_eq_true_eq, Prod.forall]
  constructor
  · intro none a member
    by_contra absent
    exact none a i member ⟨rfl, absent⟩
  · rintro all a b member ⟨rfl, absent⟩
    exact absent (all a member)

theorem waiting_concat (edges : List (Nat × Nat)) {taken : List Nat} {current : Nat}
    (fresh : current ∉ taken) (i : Nat) :
    waiting edges taken i =
      waiting edges (taken ++ [current]) i + (targets edges current).count i := by
  induction edges with
  | nil => rfl
  | cons edge edges ih =>
      simp only [waiting_cons, targets_cons]
      by_cases source : edge.1 = current
      · by_cases target : edge.2 = i <;> simp [source, target, fresh, ih]
        omega
      · by_cases target : edge.2 = i <;> by_cases member : edge.1 ∈ taken <;>
          simp [source, target, member, ih]
        omega

theorem mem_insertReady {i j : Nat} {ready : List Nat} :
    j ∈ insertReady i ready ↔ j = i ∨ j ∈ ready := by
  induction ready with
  | nil => simp [insertReady]
  | cons first rest ih =>
      unfold insertReady
      split
      · simp
      · split
        · rename_i same
          subst same
          simp
        · simp only [List.mem_cons, ih]
          exact or_left_comm

theorem sorted_insertReady (i : Nat) {ready : List Nat} (sorted : ready.Pairwise (· < ·)) :
    (insertReady i ready).Pairwise (· < ·) := by
  induction ready with
  | nil => simp [insertReady]
  | cons first rest ih =>
      obtain ⟨least, tail⟩ := List.pairwise_cons.mp sorted
      unfold insertReady
      split
      · rename_i before
        refine List.pairwise_cons.mpr ⟨?_, sorted⟩
        intro j member
        rcases List.mem_cons.mp member with rfl | member
        · exact before
        · exact Nat.lt_trans before (least j member)
      · split
        · rename_i same
          rw [same]
          exact sorted
        · refine List.pairwise_cons.mpr ⟨?_, ih tail⟩
          intro j member
          rcases mem_insertReady.mp member with rfl | member
          · omega
          · exact least j member

theorem getD_set_pred {degrees : List Nat} {target i : Nat} (positive : 0 < degrees.getD target 0) :
    (degrees.set target (degrees.getD target 0 - 1)).getD i 0 =
      degrees.getD i 0 - [target].count i := by
  have bound : target < degrees.length := by
    by_contra outside
    simp [Nat.not_lt.mp outside] at positive
  by_cases same : target = i
  · subst same
    simp [List.getD_eq_getElem?_getD, bound]
  · simp [List.getD_eq_getElem?_getD, List.getElem?_set_ne same, same]

section Release

variable {links degrees ready : List Nat}

def Covered (links degrees : List Nat) : Prop :=
  ∀ i, links.count i ≤ degrees.getD i 0

theorem Covered.head {target : Nat} (covered : Covered (target :: links) degrees) :
    0 < degrees.getD target 0 := by
  have least := covered target
  simp only [List.count_cons_self] at least
  omega

theorem Covered.tail {target : Nat} (covered : Covered (target :: links) degrees) :
    Covered links (degrees.set target (degrees.getD target 0 - 1)) := by
  intro i
  have least := covered i
  rw [getD_set_pred covered.head]
  simp only [List.count_cons, List.count_nil] at least ⊢
  omega

theorem getD_release (covered : Covered links degrees) (i : Nat) :
    (release links (degrees, ready)).1.getD i 0 = degrees.getD i 0 - links.count i := by
  induction links generalizing degrees ready with
  | nil => rfl
  | cons target links ih =>
      simp only [release]
      rw [ih covered.tail, getD_set_pred covered.head]
      simp only [List.count_cons, List.count_nil]
      omega

theorem sorted_release (links degrees : List Nat) (sorted : ready.Pairwise (· < ·)) :
    (release links (degrees, ready)).2.Pairwise (· < ·) := by
  induction links generalizing degrees ready with
  | nil => exact sorted
  | cons target links ih =>
      simp only [release]
      split
      · exact ih _ (sorted_insertReady target sorted)
      · exact ih _ sorted

theorem mem_release (covered : Covered links degrees) (i : Nat) :
    i ∈ (release links (degrees, ready)).2 ↔
      i ∈ ready ∨ i ∈ links ∧ degrees.getD i 0 = links.count i := by
  induction links generalizing degrees ready with
  | nil => simp [release]
  | cons target links ih =>
      have positive := covered.head
      have least := covered.tail
      simp only [release]
      rw [ih least, getD_set_pred positive]
      have enters : i ∈ (if degrees.getD target 0 - 1 = 0 then insertReady target ready
          else ready) ↔ i ∈ ready ∨ i = target ∧ degrees.getD target 0 = 1 := by
        split
        · have last : degrees.getD target 0 = 1 := by omega
          rw [mem_insertReady, last, or_comm]
          simp only [and_true]
        · have more : degrees.getD target 0 ≠ 1 := by omega
          simp only [more, and_false, or_false]
      rw [enters, or_assoc]
      apply or_congr_right
      by_cases same : i = target
      · subst same
        by_cases again : i ∈ links
        · have counted := List.count_pos_iff.mpr again
          have bound := covered i
          simp only [again, List.count_cons_self, List.count_nil, List.mem_cons, true_and,
            true_or] at bound ⊢
          omega
        · have uncounted := List.count_eq_zero.mpr again
          simp only [again, uncounted, List.count_cons_self, List.mem_cons, true_and,
            false_and, or_false, Nat.zero_add]
      · simp [same, Ne.symm same]

end Release

/-- What holds between two rounds of the loop, when the positions taken so far are `taken`: the
counts are those of the links whose source is not taken, and exactly the positions that wait for
nothing are ready. -/
structure Invariant (size : Nat) (edges : List (Nat × Nat)) (taken degrees ready : List Nat) :
    Prop where
  degree : ∀ i, degrees.getD i 0 = waiting edges taken i
  sorted : ready.Pairwise (· < ·)
  mem_ready : ∀ i, i ∈ ready ↔ i < size ∧ i ∉ taken ∧ waiting edges taken i = 0
  nodup : taken.Nodup
  lt_size : ∀ i ∈ taken, i < size
  sourcesFirst : SourcesFirst (fun a b => (a, b) ∈ edges) taken

namespace Invariant

variable {size : Nat} {edges : List (Nat × Nat)} {taken degrees ready : List Nat}

theorem init (bounded : ∀ edge ∈ edges, edge.2 < size) :
    Invariant size edges [] (inDegrees size edges)
      ((List.range size).filter fun i => (inDegrees size edges).getD i 0 = 0) := by
  have degree : ∀ i, (inDegrees size edges).getD i 0 = waiting edges [] i := by
    intro i
    rw [waiting_nil]
    by_cases inside : i < size
    · simp [inDegrees, inside]
    · have unfed : edges.countP (·.2 = i) = 0 := by
        rw [List.countP_eq_zero]
        intro edge member target
        have := bounded edge member
        simp only [decide_eq_true_eq] at target
        omega
      simp [inDegrees, inside, unfed]
  refine ⟨degree, List.pairwise_lt_range.filter _, ?_, List.nodup_nil, by simp, .nil⟩
  intro i
  rw [List.mem_filter, List.mem_range, degree]
  simp

theorem current_mem {current : Nat} (inv : Invariant size edges taken degrees (current :: ready)) :
    current < size ∧ current ∉ taken ∧ waiting edges taken current = 0 :=
  (inv.mem_ready current).mp List.mem_cons_self

theorem covered {current : Nat} (inv : Invariant size edges taken degrees (current :: ready)) :
    Covered (targets edges current) degrees := by
  intro i
  rw [inv.degree, waiting_concat edges inv.current_mem.2.1]
  exact Nat.le_add_left _ _

theorem step {current : Nat} (inv : Invariant size edges taken degrees (current :: ready))
    (bounded : ∀ edge ∈ edges, edge.2 < size) :
    Invariant size edges (taken ++ [current])
      (release (targets edges current) (degrees, ready)).1
      (release (targets edges current) (degrees, ready)).2 := by
  obtain ⟨inside, fresh, idle⟩ := inv.current_mem
  have counts := waiting_concat edges fresh
  obtain ⟨later, sorted⟩ := List.pairwise_cons.mp inv.sorted
  have sources : ∀ a, (a, current) ∈ edges → a ∈ taken := waiting_eq_zero_iff.mp idle
  have idle_of_mem : ∀ i ∈ taken ++ [current], waiting edges taken i = 0 := by
    intro i member
    rcases List.mem_append.mp member with member | member
    · rw [waiting_eq_zero_iff]
      intro a edge
      exact inv.sourcesFirst.mem_of_feeds member edge
    · rw [List.mem_singleton.mp member]
      exact idle
  refine ⟨?_, sorted_release _ _ sorted, ?_, ?_, ?_, inv.sourcesFirst.concat sources⟩
  · intro i
    rw [getD_release inv.covered, inv.degree, counts i]
    omega
  · intro i
    rw [mem_release inv.covered, inv.degree, counts i]
    constructor
    · rintro (member | ⟨target, last⟩)
      · obtain ⟨bound, absent, zero⟩ := (inv.mem_ready i).mp (List.mem_cons_of_mem _ member)
        have := later i member
        have := counts i
        exact ⟨bound, by simp [absent]; omega, by omega⟩
      · have counted := List.count_pos_iff.mpr target
        obtain ⟨edge, member, rfl⟩ := List.mem_map.mp target
        refine ⟨bounded edge (List.mem_filter.mp member).1, ?_, by omega⟩
        intro taken
        have := idle_of_mem _ taken
        have := counts edge.2
        omega
    · rintro ⟨bound, absent, zero⟩
      by_cases target : i ∈ targets edges current
      · exact .inr ⟨target, by omega⟩
      · left
        have uncounted := List.count_eq_zero.mpr target
        simp only [List.mem_append, List.mem_singleton, not_or] at absent
        have member := (inv.mem_ready i).mpr ⟨bound, absent.1, by rw [counts i]; omega⟩
        exact (List.mem_cons.mp member).resolve_left absent.2
  · refine List.nodup_append.mpr ⟨inv.nodup, List.nodup_singleton _, ?_⟩
    intro a member b singleton same
    rw [List.mem_singleton.mp singleton] at same
    exact fresh (same ▸ member)
  · intro i member
    rcases List.mem_append.mp member with member | member
    · exact inv.lt_size i member
    · rw [List.mem_singleton.mp member]
      exact inside

theorem length_lt {current : Nat} (inv : Invariant size edges taken degrees (current :: ready)) :
    taken.length < size := by
  obtain ⟨inside, fresh, -⟩ := inv.current_mem
  have distinct : (current :: taken).Nodup := List.nodup_cons.mpr ⟨fresh, inv.nodup⟩
  have within : (current :: taken) ⊆ List.range size := by
    intro i member
    rcases List.mem_cons.mp member with rfl | member
    · exact List.mem_range.mpr inside
    · exact List.mem_range.mpr (inv.lt_size i member)
  have shorter := List.Nodup.length_le_of_subset distinct within
  rwa [List.length_cons, List.length_range] at shorter

/-- With fuel for every position that is left, the loop ends when nothing is ready. -/
theorem run (fuel : Nat) (inv : Invariant size edges taken degrees ready)
    (bounded : ∀ edge ∈ edges, edge.2 < size) (enough : size ≤ fuel + taken.length) :
    Invariant size edges (taken ++ (run edges fuel degrees ready).1)
      (run edges fuel degrees ready).2 [] := by
  induction fuel generalizing taken degrees ready with
  | zero =>
      cases ready with
      | nil => simpa [Schedule.run] using inv
      | cons current ready =>
          have := inv.length_lt
          omega
  | succ fuel ih =>
      cases ready with
      | nil => simpa [Schedule.run] using inv
      | cons current ready =>
          have rest := ih (inv.step bounded) (by simp; omega)
          rw [List.append_assoc] at rest
          exact rest

end Invariant

/-! The loop with every count and every position checked. -/

/-- `release`, refused as soon as a count would fall below zero. -/
def releaseChecked : List Nat → List Nat × List Nat → Option (List Nat × List Nat)
  | [], state => some state
  | target :: links, (degrees, ready) =>
    match degrees[target]? with
    | some (left + 1) =>
      releaseChecked links
        (degrees.set target left, if left = 0 then insertReady target ready else ready)
    | _ => none

/-- `run`, refused when a count would fall below zero, when a position is taken that was taken
before, and when the fuel is used up before the ready positions are. -/
def runChecked (edges : List (Nat × Nat)) :
    Nat → List Nat → List Nat → List Nat → Option (List Nat × List Nat)
  | _, _, degrees, [] => some ([], degrees)
  | 0, _, _, _ :: _ => none
  | fuel + 1, taken, degrees, current :: ready =>
    if current ∈ taken then none
    else do
      let (degrees, ready) ← releaseChecked (targets edges current) (degrees, ready)
      let (order, left) ← runChecked edges fuel (taken ++ [current]) degrees ready
      return (current :: order, left)

theorem releaseChecked_eq {links degrees : List Nat} (covered : Covered links degrees)
    (ready : List Nat) :
    releaseChecked links (degrees, ready) = some (release links (degrees, ready)) := by
  induction links generalizing degrees ready with
  | nil => rfl
  | cons target links ih =>
      have positive := covered.head
      have found : degrees[target]? = some (degrees.getD target 0 - 1 + 1) := by
        rw [List.getD_eq_getElem?_getD] at positive ⊢
        cases entry : degrees[target]? with
        | none => simp [entry] at positive
        | some count =>
            simp only [entry, Option.getD_some] at positive ⊢
            congr
            omega
      simp only [releaseChecked, found, release]
      exact ih covered.tail _

theorem runChecked_eq {size : Nat} {edges : List (Nat × Nat)} {taken degrees ready : List Nat}
    (fuel : Nat) (inv : Invariant size edges taken degrees ready)
    (bounded : ∀ edge ∈ edges, edge.2 < size) (enough : size ≤ fuel + taken.length) :
    runChecked edges fuel taken degrees ready = some (run edges fuel degrees ready) := by
  induction fuel generalizing taken degrees ready with
  | zero =>
      cases ready with
      | nil => rfl
      | cons current ready =>
          have := inv.length_lt
          omega
  | succ fuel ih =>
      cases ready with
      | nil => rfl
      | cons current ready =>
          have fresh := inv.current_mem.2.1
          have rest := ih (inv.step bounded) (by simp; omega)
          simp only [runChecked, fresh, if_false, releaseChecked_eq inv.covered,
            Option.bind_eq_bind, Option.bind_some, rest]
          rfl

/-! What the loop takes and what it leaves. -/

section Outcome

variable {size : Nat} {edges : List (Nat × Nat)}

theorem invariant_ofEdges (bounded : ∀ edge ∈ edges, edge.2 < size) :
    Invariant size edges (ofEdges size edges).1 (ofEdges size edges).2 [] := by
  have start := Invariant.init bounded
  exact start.run size bounded (Nat.le_add_right _ _)

def ofEdgesChecked (size : Nat) (edges : List (Nat × Nat)) : Option (List Nat × List Nat) :=
  let degrees := inDegrees size edges
  runChecked edges size [] degrees ((List.range size).filter fun i => degrees.getD i 0 = 0)

theorem ofEdgesChecked_eq (bounded : ∀ edge ∈ edges, edge.2 < size) :
    ofEdgesChecked size edges = some (ofEdges size edges) :=
  runChecked_eq size (.init bounded) bounded (Nat.le_add_right _ _)

variable {order left : List Nat}

theorem Invariant.left_pos_iff (inv : Invariant size edges order left []) {i : Nat}
    (inside : i < size) : 0 < left.getD i 0 ↔ i ∉ order := by
  rw [inv.degree]
  constructor
  · intro positive member
    have idle : waiting edges order i = 0 := by
      rw [waiting_eq_zero_iff]
      intro a edge
      exact inv.sourcesFirst.mem_of_feeds member edge
    omega
  · intro absent
    apply Nat.pos_of_ne_zero
    intro idle
    exact List.not_mem_nil ((inv.mem_ready i).mpr ⟨inside, absent, idle⟩)

theorem Invariant.perm_range (inv : Invariant size edges order left [])
    (complete : ∀ i < size, i ∈ order) : order.Perm (List.range size) := by
  rw [List.perm_ext_iff_of_nodup inv.nodup List.nodup_range]
  intro i
  rw [List.mem_range]
  exact ⟨inv.lt_size i, complete i⟩

theorem Invariant.length_eq_iff (inv : Invariant size edges order left []) :
    order.length = size ↔ ∀ i < size, i ∈ order := by
  constructor
  · intro full
    have within : order.Subperm (List.range size) :=
      inv.nodup.subperm fun i member => List.mem_range.mpr (inv.lt_size i member)
    have perm := within.perm_of_length_le (by simp [full])
    intro i inside
    exact perm.mem_iff.mpr (List.mem_range.mpr inside)
  · intro complete
    simpa using (inv.perm_range complete).length_eq

/-- The loop leaves exactly what a cycle leads to. -/
theorem Invariant.not_mem_iff (inv : Invariant size edges order left [])
    (bounded : ∀ edge ∈ edges, edge.1 < size) {i : Nat} (inside : i < size) :
    i ∉ order ↔ ∃ c, Relation.TransGen (fun a b => (a, b) ∈ edges) c c ∧
      Relation.ReflTransGen (fun a b => (a, b) ∈ edges) c i := by
  constructor
  · intro absent
    by_contra acyclic
    -- Going back from `i` along links never returns, so it ends, but each position left has a
    -- source that is left.
    let Before := { j : Nat // j < size ∧ Relation.ReflTransGen (fun a b => (a, b) ∈ edges) j i }
    let feeds (a b : Before) : Prop := Relation.TransGen (fun a b => (a, b) ∈ edges) a.1 b.1
    have finite : Finite Before :=
      Finite.of_injective (fun j : Before => (⟨j.1, j.2.1⟩ : Fin size)) fun _ _ same =>
        Subtype.ext (congrArg Fin.val same)
    have trans : IsTrans Before feeds := ⟨fun _ _ _ first second => first.trans second⟩
    have irrefl : Std.Irrefl feeds := ⟨fun j cycle => acyclic ⟨j.1, cycle, j.2.2⟩⟩
    have wellFounded : WellFounded feeds := Finite.wellFounded_of_trans_of_irrefl feeds
    have none : ∀ j : Before, j.1 ∈ order := by
      intro j
      induction j using wellFounded.induction with
      | _ j ih =>
          by_contra left
          obtain ⟨a, edge, source⟩ : ∃ a, (a, j.1) ∈ edges ∧ a ∉ order := by
            have idle : waiting edges order j.1 ≠ 0 := by
              have := (inv.left_pos_iff j.2.1).mpr left
              rw [inv.degree] at this
              omega
            simpa [waiting_eq_zero_iff] using idle
          exact source (ih ⟨a, bounded _ edge, .head edge j.2.2⟩ (.single edge))
    exact absent (none ⟨i, inside, .refl⟩)
  · rintro ⟨c, cycle, path⟩ member
    have taken : c ∈ order := by
      clear cycle
      induction path using Relation.ReflTransGen.head_induction_on with
      | refl => exact member
      | head edge _ ih => exact inv.sourcesFirst.mem_of_feeds ih edge
    exact inv.sourcesFirst.not_cycle inv.nodup taken cycle

/-- Among the orders that go on from the positions taken, the loop finds the least. -/
theorem run_least {taken degrees ready : List Nat} (fuel : Nat)
    (inv : Invariant size edges taken degrees ready) (bounded : ∀ edge ∈ edges, edge.2 < size)
    {rest : List Nat} (complete : (taken ++ rest).Perm (List.range size))
    (first : SourcesFirst (fun a b => (a, b) ∈ edges) (taken ++ rest)) :
    (run edges fuel degrees ready).1 = rest ∨
      List.Lex (· < ·) (run edges fuel degrees ready).1 rest := by
  have least : [] = rest ∨ List.Lex (· < ·) [] rest := by
    cases rest with
    | nil => exact .inl rfl
    | cons x rest => exact .inr .nil
  induction fuel generalizing taken degrees ready rest with
  | zero => exact least
  | succ fuel ih =>
      cases ready with
      | nil => exact least
      | cons current ready =>
          obtain ⟨inside, fresh, -⟩ := inv.current_mem
          cases rest with
          | nil =>
              have member := complete.mem_iff.mpr (List.mem_range.mpr inside)
              rw [List.append_nil] at member
              exact absurd member fresh
          | cons x rest =>
              have ready_x : x ∈ current :: ready := by
                have distinct := (complete.nodup_iff.mpr List.nodup_range)
                refine (inv.mem_ready x).mpr ⟨?_, ?_, ?_⟩
                · exact List.mem_range.mp (complete.mem_iff.mp (by simp))
                · intro member
                  exact (List.nodup_append.mp distinct).2.2 x member x (by simp) rfl
                · exact waiting_eq_zero_iff.mpr (first taken x rest rfl)
              rcases List.mem_cons.mp ready_x with rfl | later
              · have regrouped : taken ++ x :: rest = taken ++ [x] ++ rest := by simp
                rw [regrouped] at complete first
                rcases ih (inv.step bounded) complete first (by cases rest <;> simp) with
                  same | lower
                · exact .inl (congrArg (x :: ·) same)
                · exact .inr (.cons lower)
              · exact .inr (.rel ((List.pairwise_cons.mp inv.sorted).1 x later))

end Outcome

end Schedule

end FrameGraph
