import EZChain.SparseMerkle

/-!
# Roots as commitments to maps

A sequence of assignments leaves a finite map, in which each key has the last value given to it.
The root of the tree that was assigned in the same way determines this map and depends on nothing
else: neither on the order of the assignments nor on the values that were overwritten.
-/

namespace EZChain

open SparseTree

namespace SparseMerkleTree

variable {H : Type} {depth : ℕ}

/-- The map that a sequence of assignments leaves: later assignments win. -/
def written : List (TreeKey depth × H) → TreeKey depth → Option H
  | [], _ => none
  | (assigned, valueHash) :: later, key =>
      (written later key).or (if assigned = key then some valueHash else none)

/-- `set` for each assignment in turn. -/
def setAll (tree : SparseMerkleTree H depth) (assignments : List (TreeKey depth × H)) :
    SparseMerkleTree H depth :=
  assignments.foldl (fun tree assignment => tree.set assignment.1 assignment.2) tree

/-- A new tree after a sequence of assignments. -/
def build (depth_pos : 0 < depth) (assignments : List (TreeKey depth × H)) :
    SparseMerkleTree H depth :=
  (empty depth_pos).setAll assignments

theorem get_setAll (tree : SparseMerkleTree H depth) (assignments : List (TreeKey depth × H))
    (key : TreeKey depth) :
    (tree.setAll assignments).get key.bytes =
      (written assignments key).or (tree.get key.bytes) := by
  induction assignments generalizing tree with
  | nil => rfl
  | cons assignment later induction =>
      obtain ⟨assigned, valueHash⟩ := assignment
      calc
        ((tree.set assigned valueHash).setAll later).get key.bytes =
            (written later key).or ((tree.set assigned valueHash).get key.bytes) :=
          induction (tree.set assigned valueHash)
        _ = ((written later key).or (if assigned = key then some valueHash else none)).or
            (tree.get key.bytes) := by
          rw [get_set, Option.or_assoc]
          congr 1
          split <;> rfl

theorem get_build (depth_pos : 0 < depth) (assignments : List (TreeKey depth × H))
    (key : TreeKey depth) :
    (build depth_pos assignments).get key.bytes = written assignments key := by
  rw [build, get_setAll, get_empty, Option.or_none]

/-! ## Trees without stray keys -/

/-- Every stored integer is the integer of a key of the tree's depth. -/
def KeyedByBytes (tree : SparseMerkleTree H depth) : Prop :=
  ∀ stored ∈ tree.values.keys, ∃ key : TreeKey depth, keyInt key.bytes = stored

theorem KeyedByBytes.set {tree : SparseMerkleTree H depth} (keyed : tree.KeyedByBytes)
    (key : TreeKey depth) (valueHash : H) : (tree.set key valueHash).KeyedByBytes := by
  intro stored member
  rcases (OrderedDict.mem_keys_set _ _ _ _).mp member with rfl | member
  · exact ⟨key, rfl⟩
  · exact keyed stored member

theorem KeyedByBytes.setAll {tree : SparseMerkleTree H depth} (keyed : tree.KeyedByBytes)
    (assignments : List (TreeKey depth × H)) : (tree.setAll assignments).KeyedByBytes := by
  induction assignments generalizing tree with
  | nil => exact keyed
  | cons assignment later induction => exact induction (keyed.set assignment.1 assignment.2)

theorem keyedByBytes_build (depth_pos : 0 < depth) (assignments : List (TreeKey depth × H)) :
    (build depth_pos assignments).KeyedByBytes := by
  apply KeyedByBytes.setAll
  intro stored member
  cases member

/-! ## Commitment -/

section Commitment

variable [Crypto H]

theorem root_eq_iff_entries (ideal : IdealHash H) (tree other : SparseMerkleTree H depth) :
    tree.root = other.root ↔
      ∀ entry, entry ∈ tree.values.entries ↔ entry ∈ other.values.entries := by
  have bounded : ∀ tree : SparseMerkleTree H depth,
      ∀ entry ∈ tree.values.entries, entry.1 / 2 ^ depth = 0 := fun tree entry member =>
    Nat.div_eq_of_lt (tree.keys_lt entry.1 (List.mem_map_of_mem member))
  apply subtreeHash_eq_iff (nodeHash_injective ideal)
  · intro key value value' equality
    exact (leafNodeHash_injective ideal equality).2
  · exact fun key value => leafNodeHash_ne_emptyLeafHash ideal _ value
  · exact tree.values.nodup
  · exact other.values.nodup
  · exact bounded tree
  · exact bounded other

/-- Trees without stray keys have the same root exactly when they answer every key alike. -/
theorem root_eq_iff_get (ideal : IdealHash H) {tree other : SparseMerkleTree H depth}
    (keyed : tree.KeyedByBytes) (keyed' : other.KeyedByBytes) :
    tree.root = other.root ↔
      ∀ key : TreeKey depth, tree.get key.bytes = other.get key.bytes := by
  rw [root_eq_iff_entries ideal]
  constructor
  · intro same key
    apply Option.ext
    intro valueHash
    rw [get, get, OrderedDict.get?_eq_some_iff, OrderedDict.get?_eq_some_iff]
    exact same (keyInt key.bytes, valueHash)
  · rintro same ⟨stored, valueHash⟩
    -- An entry of either tree lies under the integer of a key, where the trees agree.
    have transfer : ∀ left right : SparseMerkleTree H depth, left.KeyedByBytes →
        (∀ key : TreeKey depth, left.get key.bytes = right.get key.bytes) →
        (stored, valueHash) ∈ left.values.entries → (stored, valueHash) ∈ right.values.entries := by
      intro left right keyed same member
      obtain ⟨key, rfl⟩ := keyed stored (List.mem_map_of_mem member)
      have found := (OrderedDict.get?_eq_some_iff left.values _ _).mpr member
      apply (OrderedDict.get?_eq_some_iff right.values _ _).mp
      exact (same key).symm.trans found
    exact ⟨transfer tree other keyed same, transfer other tree keyed' fun key => (same key).symm⟩

/-- The roots of two built trees are equal exactly when their assignments leave the same map. -/
theorem root_build_eq_iff (ideal : IdealHash H) (depth_pos : 0 < depth)
    (assignments others : List (TreeKey depth × H)) :
    (build depth_pos assignments).root = (build depth_pos others).root ↔
      written assignments = written others := by
  rw [root_eq_iff_get ideal (keyedByBytes_build depth_pos assignments)
    (keyedByBytes_build depth_pos others)]
  simp only [get_build]
  exact funext_iff.symm

/-- Neither the order of assignments nor an overwritten value is visible in the root, and a
different value is. -/
theorem root_build_eq_iff_threeKeys :
    let assignment (byte value : ℕ) : TreeKey 8 × SymbolicDigest :=
      (⟨[UInt8.ofNat byte], rfl⟩, .filled value)
    let first := [assignment 1 10, assignment 2 20, assignment 1 11, assignment 200 30]
    let second := [assignment 200 30, assignment 1 11, assignment 2 20]
    let third := [assignment 200 30, assignment 1 10, assignment 2 20]
    (build (by decide) first).root = (build (by decide) second).root ∧
      (build (by decide) first).root ≠ (build (by decide) third).root := by
  intro assignment first second third
  constructor
  · apply (root_build_eq_iff SymbolicDigest.idealHash (by decide) first second).mpr
    funext key
    by_cases first_key : (assignment 1 10).1 = key
    · rw [← first_key]
      rfl
    · by_cases second_key : (assignment 2 20).1 = key
      · rw [← second_key]
        rfl
      · by_cases third_key : (assignment 200 30).1 = key
        · rw [← third_key]
          rfl
        · simp only [assignment] at first_key second_key third_key
          simp only [first, second, written, assignment, first_key, second_key, third_key,
            if_false, Option.or_none]
  · intro equality
    have same := (root_build_eq_iff SymbolicDigest.idealHash (by decide) first third).mp equality
    have value_eq := congrFun same (assignment 1 10).1
    cases value_eq

end Commitment

end SparseMerkleTree

end EZChain
