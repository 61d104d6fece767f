import Mathlib.Tactic.Common

/-!
# The least accepted item of a list

A scan keeps the first of the accepted items with the least key.  What it keeps is determined by the
set of accepted items alone when no two of them share a key.
-/

namespace LeastItem

variable {α β : Type*} [LE β]

/-- The kept item is accepted and has the least key; none is kept when none is accepted. -/
structure Selects (key : α → β) (accepted : α → Prop) (items : List α) (best : Option α) :
    Prop where
  none_iff : best = none ↔ ∀ item ∈ items, ¬ accepted item
  chosen : ∀ item ∈ best, item ∈ items ∧ accepted item
  least : ∀ item ∈ best, ∀ other ∈ items, accepted other → key item ≤ key other

variable {key : α → β} {accepted : α → Prop} {items : List α}

theorem selects_nil : Selects key accepted [] none where
  none_iff := iff_of_true rfl (List.forall_mem_nil _)
  chosen := fun _ absent => absurd absent (Option.not_mem_none _)
  least := fun _ absent => absurd absent (Option.not_mem_none _)

/-- A refused item changes nothing. -/
theorem Selects.refused {best : Option α} (selects : Selects key accepted items best) {item : α}
    (refused : ¬ accepted item) : Selects key accepted (items ++ [item]) best where
  none_iff := by
    rw [selects.none_iff, List.forall_mem_append, List.forall_mem_singleton, and_iff_left refused]
  chosen := fun kept member =>
    ⟨List.mem_append_left _ (selects.chosen kept member).1, (selects.chosen kept member).2⟩
  least := fun kept member => by
    rw [List.forall_mem_append, List.forall_mem_singleton]
    exact ⟨selects.least kept member, fun taken => absurd taken refused⟩

/-- The kept item stays when its key is not above the key of the next one. -/
theorem Selects.kept {current item : α} (selects : Selects key accepted items (some current))
    (below : key current ≤ key item) :
    Selects key accepted (items ++ [item]) (some current) where
  none_iff := by
    have some_ne := Option.some_ne_none current
    refine iff_of_false some_ne fun refused => some_ne (selects.none_iff.mpr fun other member => ?_)
    exact refused other (List.mem_append_left _ member)
  chosen := fun kept member =>
    ⟨List.mem_append_left _ (selects.chosen kept member).1, (selects.chosen kept member).2⟩
  least := fun kept member => by
    obtain rfl := Option.mem_some_iff.mp member
    rw [List.forall_mem_append, List.forall_mem_singleton]
    exact ⟨selects.least _ rfl, fun _ => below⟩

variable [Std.IsPartialOrder β]

/-- An accepted item whose key is least is kept. -/
theorem selects_last {item : α} (taken : accepted item)
    (least : ∀ other ∈ items, accepted other → key item ≤ key other) :
    Selects key accepted (items ++ [item]) (some item) where
  none_iff := iff_of_false (Option.some_ne_none item) fun refused =>
    refused item (List.mem_append_right _ (List.mem_singleton_self item)) taken
  chosen := fun kept member => by
    obtain rfl := Option.mem_some_iff.mp member
    exact ⟨List.mem_append_right _ (List.mem_singleton_self _), taken⟩
  least := fun kept member => by
    obtain rfl := Option.mem_some_iff.mp member
    rw [List.forall_mem_append, List.forall_mem_singleton]
    exact ⟨least, fun _ => Std.le_refl _⟩

/-- Lists with the same accepted items keep the same item. -/
theorem Selects.unique {others : List α} {best other_best : Option α}
    (selects : Selects key accepted items best)
    (other_selects : Selects key accepted others other_best)
    (same : ∀ item, item ∈ items ∧ accepted item ↔ item ∈ others ∧ accepted item)
    (apart : ∀ left ∈ items, accepted left → ∀ right ∈ items, accepted right →
      key left = key right → left = right) : best = other_best := by
  have refused_iff : (∀ item ∈ items, ¬ accepted item) ↔ ∀ item ∈ others, ¬ accepted item :=
    forall_congr' fun item => by rw [← not_and, ← not_and, same]
  have none_iff := selects.none_iff.trans (refused_iff.trans other_selects.none_iff.symm)
  cases best with
  | none => exact (none_iff.mp rfl).symm
  | some left =>
      cases other_best with
      | none => exact absurd (none_iff.mpr rfl) (Option.some_ne_none left)
      | some right =>
          obtain ⟨left_mem, left_accepted⟩ := selects.chosen left rfl
          obtain ⟨right_other, right_accepted⟩ := other_selects.chosen right rfl
          obtain ⟨right_mem, _⟩ := (same right).mpr ⟨right_other, right_accepted⟩
          obtain ⟨left_other, _⟩ := (same left).mp ⟨left_mem, left_accepted⟩
          have key_eq : key left = key right := Std.le_antisymm
            (selects.least left rfl right right_mem right_accepted)
            (other_selects.least right rfl left left_other left_accepted)
          rw [apart left left_mem left_accepted right right_mem right_accepted key_eq]

end LeastItem
