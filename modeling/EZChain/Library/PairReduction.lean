import Mathlib.Data.List.Nodup
import Mathlib.Logic.Function.Basic
import Mathlib.Tactic.Common

/-!
# Pairwise reduction

A list is reduced to one value level by level: neighbours are joined by a node function, and a value
without a partner is joined with itself.  With an injective node function and distinct items that
are no nodes themselves, the value at the end determines the list, though a list and the same list
with its last item repeated may reduce to the same value.
-/

namespace PairReduction

variable {α : Type*} (node : α → α → α)

/-- One level: the items are joined two by two, and a last item without partner with itself. -/
def level : List α → List α
  | [] => []
  | [last] => [node last last]
  | left :: right :: rest => node left right :: level rest

/-- Level by level, a list is reduced to one value. -/
inductive ReducesTo : List α → α → Prop
  | single (root : α) : ReducesTo [root] root
  | level {left right root : α} {rest : List α}
      (reduces : ReducesTo (level node (left :: right :: rest)) root) :
      ReducesTo (left :: right :: rest) root

/-- How often nodes are joined on the way down the left side of a value. -/
def HasRank : ℕ → α → Prop
  | 0, value => ∀ left right, node left right ≠ value
  | rank + 1, value => ∃ left right, node left right = value ∧ HasRank rank left

variable {node}

theorem hasRank_unique (injective : Function.Injective2 node) {rank other : ℕ} {value : α}
    (has_rank : HasRank node rank value) (has_other : HasRank node other value) : rank = other := by
  induction rank generalizing other value with
  | zero =>
      cases other with
      | zero => rfl
      | succ other =>
          obtain ⟨left, right, node_eq, _⟩ := has_other
          exact absurd node_eq (has_rank left right)
  | succ rank induction =>
      obtain ⟨left, right, rfl, left_rank⟩ := has_rank
      cases other with
      | zero => exact absurd rfl (has_other left right)
      | succ other =>
          obtain ⟨left', right', node_eq, other_rank⟩ := has_other
          obtain ⟨rfl, rfl⟩ := injective node_eq
          rw [induction left_rank other_rank]

theorem hasRank_level {rank : ℕ} {items : List α}
    (ranked : ∀ item ∈ items, HasRank node rank item) :
    ∀ item ∈ level node items, HasRank node (rank + 1) item := by
  induction items using level.induct with
  | case1 => exact List.forall_mem_nil _
  | case2 last =>
      rw [level, List.forall_mem_singleton]
      exact ⟨last, last, rfl, ranked last List.mem_cons_self⟩
  | case3 left right rest induction =>
      rw [level, List.forall_mem_cons]
      refine ⟨⟨left, right, rfl, ranked left List.mem_cons_self⟩, induction fun item member => ?_⟩
      exact ranked item (List.mem_cons_of_mem _ (List.mem_cons_of_mem _ member))

theorem level_eq_nil_iff {items : List α} : level node items = [] ↔ items = [] := by
  cases items with
  | nil => exact iff_of_true rfl rfl
  | cons first rest =>
      cases rest <;> exact iff_of_false (List.cons_ne_nil _ _) (List.cons_ne_nil _ _)

theorem exists_node_of_mem_level {items : List α} {value : α} (member : value ∈ level node items) :
    ∃ left right, value = node left right := by
  induction items using level.induct with
  | case1 => cases member
  | case2 last => exact ⟨last, last, List.mem_singleton.mp member⟩
  | case3 left right rest induction =>
      rcases List.mem_cons.mp member with node_eq | in_rest
      · exact ⟨left, right, node_eq⟩
      · exact induction in_rest

/-- The value at the end of a reduction is an item or a node. -/
theorem ReducesTo.mem_or_node {items : List α} {root : α} (reduces : ReducesTo node items root) :
    root ∈ items ∨ ∃ left right, root = node left right := by
  induction reduces with
  | single root => exact .inl List.mem_cons_self
  | level reduces induction =>
      rcases induction with member | is_node
      · exact .inr (exists_node_of_mem_level member)
      · exact .inr is_node

theorem le_of_hasRank_root (injective : Function.Injective2 node) {rank other : ℕ}
    {items : List α} {root : α} (reduces : ReducesTo node items root)
    (ranked : ∀ item ∈ items, HasRank node rank item) (root_rank : HasRank node other root) :
    rank ≤ other := by
  induction reduces generalizing rank with
  | single root =>
      exact Nat.le_of_eq (hasRank_unique injective (ranked root List.mem_cons_self) root_rank)
  | level reduces induction => exact Nat.le_of_succ_le (induction (hasRank_level ranked) root_rank)

/-! ## Distinct items -/

section Injective

variable (injective : Function.Injective2 node)
include injective

theorem mem_of_node_mem_level {items : List α} {left right : α}
    (member : node left right ∈ level node items) : left ∈ items ∧ right ∈ items := by
  induction items using level.induct with
  | case1 => cases member
  | case2 last =>
      obtain ⟨rfl, rfl⟩ := injective (List.mem_singleton.mp member)
      exact ⟨List.mem_cons_self, List.mem_cons_self⟩
  | case3 first second rest induction =>
      rcases List.mem_cons.mp member with node_eq | in_rest
      · obtain ⟨rfl, rfl⟩ := injective node_eq
        exact ⟨List.mem_cons_self, List.mem_cons_of_mem _ List.mem_cons_self⟩
      · obtain ⟨left_mem, right_mem⟩ := induction in_rest
        exact ⟨List.mem_cons_of_mem _ (List.mem_cons_of_mem _ left_mem),
          List.mem_cons_of_mem _ (List.mem_cons_of_mem _ right_mem)⟩

theorem nodup_level {items : List α} (nodup : items.Nodup) : (level node items).Nodup := by
  induction items using level.induct with
  | case1 => exact List.nodup_nil
  | case2 last => exact List.nodup_singleton _
  | case3 left right rest induction =>
      obtain ⟨left_fresh, right_nodup⟩ := List.nodup_cons.mp nodup
      refine List.nodup_cons.mpr ⟨fun member => ?_, induction (List.nodup_cons.mp right_nodup).2⟩
      have left_mem := (mem_of_node_mem_level injective member).1
      exact left_fresh (List.mem_cons_of_mem _ left_mem)

/-- A level determines the distinct items below it: a repeated last item would not be distinct. -/
theorem eq_of_level_eq {items others : List α} (nodup : items.Nodup) (nodup_others : others.Nodup)
    (level_eq : level node items = level node others) : items = others := by
  induction items using level.induct generalizing others with
  | case1 => exact (level_eq_nil_iff.mp level_eq.symm).symm
  | case2 last =>
      match others with
      | [] => cases level_eq
      | [other] => rw [(injective (List.cons.inj level_eq).1).1]
      | first :: second :: rest =>
          obtain ⟨rfl, rfl⟩ := injective (List.cons.inj level_eq).1
          exact absurd List.mem_cons_self (List.nodup_cons.mp nodup_others).1
  | case3 left right rest induction =>
      match others with
      | [] => cases level_eq
      | [other] =>
          obtain ⟨rfl, rfl⟩ := injective (List.cons.inj level_eq).1
          exact absurd List.mem_cons_self (List.nodup_cons.mp nodup).1
      | first :: second :: other_rest =>
          obtain ⟨node_eq, rest_eq⟩ := List.cons.inj level_eq
          obtain ⟨rfl, rfl⟩ := injective node_eq
          rw [induction (List.nodup_cons.mp (List.nodup_cons.mp nodup).2).2
            (List.nodup_cons.mp (List.nodup_cons.mp nodup_others).2).2 rest_eq]

/-- The value at the end of a reduction determines the distinct items of one rank. -/
theorem ReducesTo.items_eq {rank : ℕ} {items others : List α} {root : α}
    (reduces : ReducesTo node items root) (reduces_others : ReducesTo node others root)
    (nodup : items.Nodup) (nodup_others : others.Nodup)
    (ranked : ∀ item ∈ items, HasRank node rank item)
    (ranked_others : ∀ item ∈ others, HasRank node rank item) : items = others := by
  induction reduces generalizing rank others with
  | single root =>
      cases reduces_others with
      | single => rfl
      | level reduces_level =>
          have higher := le_of_hasRank_root injective reduces_level (hasRank_level ranked_others)
            (ranked root List.mem_cons_self)
          omega
  | @level left right root rest reduces_level induction =>
      cases reduces_others with
      | single =>
          have higher := le_of_hasRank_root injective reduces_level (hasRank_level ranked)
            (ranked_others root List.mem_cons_self)
          omega
      | level others_level =>
          exact eq_of_level_eq injective nodup nodup_others
            (induction others_level (nodup_level injective nodup)
              (nodup_level injective nodup_others) (hasRank_level ranked)
              (hasRank_level ranked_others))

end Injective

end PairReduction
