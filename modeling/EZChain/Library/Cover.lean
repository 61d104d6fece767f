import Mathlib.Algebra.BigOperators.Group.List.Basic
import Mathlib.Algebra.GroupWithZero.Nat
import Mathlib.Data.Finset.Card
import Mathlib.Data.Finset.Lattice.Basic
import Mathlib.Data.Finset.Union
import Mathlib.Tactic.Common

/-!
# Covers by disjoint cells

Every item of a list covers a finite set of points.  Replacing items by pieces that lie inside them
keeps the items apart, and it keeps the covered set when no point gets lost.
-/

namespace Cover

variable {ι κ β : Type*} [DecidableEq β] {cell : ι → Finset β} {piece : κ → Finset β}

/-- The points that some item covers. -/
def cover (cell : ι → Finset β) (items : List ι) : Finset β :=
  items.foldr (fun item covered => cell item ∪ covered) ∅

/-- No point lies in the cells of two items. -/
def Apart (cell : ι → Finset β) (items : List ι) : Prop :=
  items.Pairwise fun left right => Disjoint (cell left) (cell right)

@[simp]
theorem mem_cover {items : List ι} {point : β} :
    point ∈ cover cell items ↔ ∃ item ∈ items, point ∈ cell item := by
  induction items with
  | nil => simp [cover]
  | cons item items induction =>
      rw [cover, List.foldr_cons, Finset.mem_union, ← cover, induction]
      simp

@[simp]
theorem cover_nil : cover cell [] = ∅ := rfl

@[simp]
theorem cover_cons (item : ι) (items : List ι) :
    cover cell (item :: items) = cell item ∪ cover cell items := rfl

@[simp]
theorem cover_append (items others : List ι) :
    cover cell (items ++ others) = cover cell items ∪ cover cell others := by
  ext point
  simp [or_and_right, exists_or]

theorem cover_perm {items others : List ι} (perm : items.Perm others) :
    cover cell items = cover cell others := by
  ext point
  simp only [mem_cover, perm.mem_iff]

theorem cover_map (image : κ → ι) (items : List κ) :
    cover cell (items.map image) = cover (fun item => cell (image item)) items := by
  ext point
  simp

/-- Groups that cover what their items cover do so together. -/
theorem cover_flatten {items : List ι} {groups : List (List κ)}
    (same : List.Forall₂ (fun item group => cover piece group = cell item) items groups) :
    cover piece groups.flatten = cover cell items := by
  induction same with
  | nil => rfl
  | cons head _ induction => rw [List.flatten_cons, cover_append, cover_cons, head, induction]

omit [DecidableEq β] in
/-- Every piece belongs to the group of some item. -/
theorem exists_item {related : ι → List κ → Prop} {items : List ι} {groups : List (List κ)}
    (matched : List.Forall₂ related items groups) {part : κ} (member : part ∈ groups.flatten) :
    ∃ item ∈ items, ∃ group, related item group ∧ part ∈ group := by
  induction matched with
  | nil => exact absurd member List.not_mem_nil
  | cons head _ induction =>
      rcases List.mem_append.mp member with in_group | member
      · exact ⟨_, List.mem_cons_self, _, head, in_group⟩
      · obtain ⟨item, item_mem, holds⟩ := induction member
        exact ⟨item, List.mem_cons_of_mem _ item_mem, holds⟩

/-! ## Items that stay apart -/

omit [DecidableEq β] in
theorem apart_nil : Apart cell [] := List.Pairwise.nil

instance disjoint_symm : Std.Symm fun left right : ι => Disjoint (cell left) (cell right) where
  symm _ _ disjoint := disjoint.symm

omit [DecidableEq β] in
theorem apart_map (image : κ → ι) (items : List κ) :
    Apart cell (items.map image) ↔ Apart (fun item => cell (image item)) items :=
  List.pairwise_map

omit [DecidableEq β] in
theorem apart_perm {items others : List ι} (perm : items.Perm others) :
    Apart cell items ↔ Apart cell others :=
  perm.pairwise_iff fun disjoint => disjoint.symm

theorem apart_append_iff {items others : List ι} :
    Apart cell (items ++ others) ↔
      Apart cell items ∧ Apart cell others ∧ Disjoint (cover cell items) (cover cell others) := by
  rw [Apart, List.pairwise_append]
  refine and_congr_right fun _ => and_congr_right fun _ => ?_
  simp only [Finset.disjoint_left, mem_cover]
  constructor
  · rintro disjoint point ⟨item, item_mem, inside⟩ ⟨other, other_mem, other_inside⟩
    exact disjoint item item_mem other other_mem inside other_inside
  · intro disjoint item item_mem other other_mem point inside other_inside
    exact disjoint ⟨item, item_mem, inside⟩ ⟨other, other_mem, other_inside⟩

omit [DecidableEq β] in
/-- A point lies in the cell of one item only. -/
theorem Apart.eq_of_mem {items : List ι} (apart : Apart cell items) {left right : ι}
    (left_mem : left ∈ items) (right_mem : right ∈ items) {point : β}
    (inside : point ∈ cell left) (other_inside : point ∈ cell right) : left = right := by
  by_contra different
  have disjoint := List.Pairwise.forall apart left_mem right_mem different
  exact Finset.disjoint_left.mp disjoint inside other_inside

omit [DecidableEq β] in
/-- Smaller cells stay apart. -/
theorem Apart.mono {smaller : ι → Finset β} {items : List ι} (apart : Apart cell items)
    (inside : ∀ item ∈ items, smaller item ⊆ cell item) : Apart smaller items :=
  List.Pairwise.imp_of_mem (fun left_mem right_mem disjoint =>
    disjoint.mono (inside _ left_mem) (inside _ right_mem)) apart

/-- Groups inside items that are apart are apart when each group is. -/
theorem Apart.flatten {items : List ι} (apart : Apart cell items) {groups : List (List κ)}
    (refines : List.Forall₂ (fun item group => cover piece group ⊆ cell item ∧ Apart piece group)
      items groups) :
    Apart piece groups.flatten ∧ cover piece groups.flatten ⊆ cover cell items := by
  induction refines with
  | nil => exact ⟨apart_nil, Finset.empty_subset _⟩
  | cons head _ induction =>
      obtain ⟨item_apart, rest_apart⟩ := List.pairwise_cons.mp apart
      obtain ⟨group_inside, group_apart⟩ := head
      obtain ⟨groups_apart, groups_inside⟩ := induction rest_apart
      rw [List.flatten_cons, apart_append_iff, cover_append, cover_cons]
      refine ⟨⟨group_apart, groups_apart, ?_⟩, Finset.union_subset_union group_inside groups_inside⟩
      rw [Finset.disjoint_left]
      intro point in_group in_groups
      obtain ⟨other, other_mem, in_other⟩ := mem_cover.mp (groups_inside in_groups)
      exact Finset.disjoint_left.mp (item_apart other other_mem) (group_inside in_group) in_other

/-- The cells of items that are apart add up to the covered set. -/
theorem Apart.card_cover {items : List ι} (apart : Apart cell items) :
    (items.map fun item => (cell item).card).sum = (cover cell items).card := by
  induction items with
  | nil => rfl
  | cons item items induction =>
      obtain ⟨_, rest_apart, disjoint⟩ :=
        apart_append_iff.mp (show Apart cell ([item] ++ items) from apart)
      have item_eq : cover cell [item] = cell item := Finset.union_empty _
      rw [List.map_cons, List.sum_cons, induction rest_apart, cover_cons,
        Finset.card_union_of_disjoint (item_eq ▸ disjoint)]

/-! ## Items of a kind -/

section Kind

variable (kind : ι → Prop) [DecidablePred kind]

/-- The cell of an item of the kind, and nothing for other items. -/
def cellOf (cell : ι → Finset β) (item : ι) : Finset β := if kind item then cell item else ∅

theorem cover_filter (items : List ι) :
    cover cell (items.filter fun item => kind item) = cover (cellOf kind cell) items := by
  ext point
  simp only [mem_cover, List.mem_filter, decide_eq_true_eq, cellOf]
  constructor
  · rintro ⟨item, ⟨member, of_kind⟩, inside⟩
    exact ⟨item, member, by rwa [if_pos of_kind]⟩
  · rintro ⟨item, member, inside⟩
    split_ifs at inside with of_kind
    · exact ⟨item, ⟨member, of_kind⟩, inside⟩
    · exact absurd inside (Finset.notMem_empty point)

omit [DecidableEq β] in
theorem apart_filter (items : List ι) :
    Apart cell (items.filter fun item => kind item) ↔ Apart (cellOf kind cell) items := by
  rw [Apart, List.pairwise_filter, Apart]
  apply iff_of_eq
  congr 1
  ext left right
  simp only [decide_eq_true_eq, cellOf]
  split_ifs with left_kind right_kind <;> simp_all

end Kind

end Cover
