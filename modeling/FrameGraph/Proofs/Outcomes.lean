import FrameGraph.Outcome
import Mathlib.Data.List.Forall2

/-!
Lists of computations that may be refused or of results that may be missing.
-/

namespace FrameGraph

variable {ε α β : Type}

theorem forall₂_of_mapM {f : α → Except ε β} {items : List α} {results : List β}
    (done : items.mapM f = .ok results) :
    List.Forall₂ (fun item result => f item = .ok result) items results := by
  induction items generalizing results with
  | nil =>
      obtain rfl := pure_eq_ok.mp done
      exact .nil
  | cons first rest ih =>
      simp only [List.mapM_cons, bind_eq_ok, pure_eq_ok] at done
      obtain ⟨result, head, others, tail, rfl⟩ := done
      exact .cons head (ih tail)

theorem exists_mapM {f : α → Except ε β} {items : List α}
    (each : ∀ item ∈ items, ∃ result, f item = .ok result) :
    ∃ results, items.mapM f = .ok results := by
  induction items with
  | nil => exact ⟨[], rfl⟩
  | cons first rest ih =>
      have tail := ih fun item member => each item (List.mem_cons_of_mem _ member)
      simp only [List.mapM_cons, bind_eq_ok, pure_eq_ok]
      obtain ⟨result, head⟩ := each first List.mem_cons_self
      obtain ⟨others, tail⟩ := tail
      exact ⟨result :: others, result, head, others, tail, rfl⟩

theorem mapM_map_of_eq {f g : α → Except ε β} {change : α → α} {result : β → β}
    (same : ∀ item, g (change item) = (f item).map result) (items : List α) :
    (items.map change).mapM g = (items.mapM f).map (List.map result) := by
  induction items with
  | nil => rfl
  | cons first rest ih =>
      rw [List.map_cons, List.mapM_cons, List.mapM_cons, same, ih]
      cases f first with
      | error e => rfl
      | ok b => cases rest.mapM f <;> rfl

theorem map_eq_of_forall₂ {γ : Type} {related : α → β → Prop} {items : List α} {results : List β}
    {f : α → γ} {g : β → γ} (pairs : List.Forall₂ related items results)
    (same : ∀ item ∈ items, ∀ result ∈ results, related item result → f item = g result) :
    items.map f = results.map g := by
  induction pairs with
  | nil => rfl
  | cons head tail ih =>
      rw [List.map_cons, List.map_cons, same _ List.mem_cons_self _ List.mem_cons_self head,
        ih fun item member result inside =>
          same item (List.mem_cons_of_mem _ member) result (List.mem_cons_of_mem _ inside)]

theorem exists_mem_iff_of_forall₂ {related : α → β → Prop} {items : List α} {results : List β}
    {P : α → Prop} {Q : β → Prop} (pairs : List.Forall₂ related items results)
    (same : ∀ item ∈ items, ∀ result, related item result → (Q result ↔ P item)) :
    (∃ result ∈ results, Q result) ↔ ∃ item ∈ items, P item := by
  induction pairs with
  | nil => simp
  | cons head tail ih =>
      simp only [List.mem_cons, exists_eq_or_imp]
      exact or_congr (same _ List.mem_cons_self _ head)
        (ih fun item member => same item (List.mem_cons_of_mem _ member))

/-! Lists of results that may be missing. -/

theorem mapM_eq_some_iff {f : α → Option β} {items : List α} {results : List β} :
    items.mapM f = some results ↔
      List.Forall₂ (fun item result => f item = some result) items results := by
  induction items generalizing results with
  | nil => simp [eq_comm]
  | cons first rest ih =>
      simp only [List.mapM_cons, Option.bind_eq_bind, Option.bind_eq_some_iff, Option.pure_def,
        Option.some.injEq, ih]
      constructor
      · rintro ⟨result, head, others, tail, rfl⟩
        exact .cons head tail
      · rintro (_ | ⟨head, tail⟩)
        exact ⟨_, head, _, tail, rfl⟩

theorem exists_of_mapM {f : α → Option β} {items : List α} {results : List β}
    (done : items.mapM f = some results) {result : β} (member : result ∈ results) :
    ∃ item ∈ items, f item = some result := by
  have pairs := mapM_eq_some_iff.mp done
  clear done
  induction pairs with
  | nil => contradiction
  | cons head tail ih =>
      rcases List.mem_cons.mp member with rfl | member
      · exact ⟨_, List.mem_cons_self, head⟩
      · obtain ⟨item, inside, found⟩ := ih member
        exact ⟨item, List.mem_cons_of_mem _ inside, found⟩

theorem mapM_map_eq_some {write : β → α} {read : α → Option β} {items : List β}
    (each : ∀ item ∈ items, read (write item) = some item) :
    (items.map write).mapM read = some items := by
  rw [mapM_eq_some_iff, List.forall₂_map_left_iff, List.forall₂_same]
  exact each

end FrameGraph
