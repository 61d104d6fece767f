import EZChain.Chain.PeerBlock
import EZChain.Library.PairReduction

/-!
# The diff root

The diff root is the Merkle root of the leaf hashes of the diff entries.  An odd level repeats its
last digest, so lists of hashes can share a root.  Entries with strictly increasing keys have
distinct hashes, and of such lists the root commits to every hash and its place.
-/

namespace EZChain

open PairReduction

variable {H : Type} [Crypto H]

/-- The digest of two digests below it. -/
def merkleNode (domain : String) (left right : H) : H :=
  Crypto.keccak256 [.tag domain, .digest left, .digest right]

theorem merkleLevel_eq_level (domain : String) (items : List H) :
    merkleLevel domain items = level (merkleNode domain) items := by
  induction items using merkleLevel.induct with
  | case1 => rfl
  | case2 last => rfl
  | case3 left right rest induction => rw [merkleLevel, level, induction, merkleNode]

theorem reducesTo_merkleRoot (domain : String) {leafHashes : List H} (nonempty : leafHashes ≠ []) :
    ReducesTo (merkleNode domain) leafHashes (merkleRoot leafHashes domain) := by
  rw [merkleRoot]
  fun_induction merkleReduce domain leafHashes with
  | case1 => exact absurd rfl nonempty
  | case2 root => exact .single root
  | case3 left right rest induction =>
      refine .level ?_
      rw [← merkleLevel_eq_level]
      exact induction (List.cons_ne_nil _ _)

section Ideal

variable (ideal : IdealHash H)
include ideal

theorem merkleNode_injective (domain : String) :
    Function.Injective2 (merkleNode (H := H) domain) := by
  intro left left' right right' node_eq
  have chunks_eq := ideal node_eq
  simp only [List.cons.injEq, Chunk.digest.injEq, true_and, and_true] at chunks_eq
  exact chunks_eq

theorem addrKey_eq_of_computeDiffLeafHash {left right : DiffEntry H}
    (hash_eq : computeDiffLeafHash left = computeDiffLeafHash right) :
    left.addrKey = right.addrKey := by
  have chunks_eq := ideal hash_eq
  simp only [List.cons.injEq, Chunk.encoded.injEq, Canon.dict.injEq, Prod.mk.injEq,
    Canon.bytes.injEq, true_and, and_true] at chunks_eq
  have bytes_injective : Function.Injective Bytes32.bytes := by
    rintro ⟨bytes, _⟩ ⟨other, _⟩ rfl
    rfl
  exact bytes_injective chunks_eq.1

theorem hasRank_computeDiffLeafHash (domain : String) (entry : DiffEntry H) :
    HasRank (merkleNode domain) 0 (computeDiffLeafHash entry) := by
  intro left right node_eq
  have chunks_eq := ideal node_eq
  simp at chunks_eq

theorem nodup_leafHashes {entries : List (DiffEntry H)}
    (increasing : entries.Pairwise fun left right => left.addrKey.bytes < right.addrKey.bytes) :
    (entries.map computeDiffLeafHash).Nodup := by
  rw [List.nodup_iff_pairwise_ne, List.pairwise_map]
  refine increasing.imp fun {left right} before hash_eq => ?_
  rw [addrKey_eq_of_computeDiffLeafHash ideal hash_eq] at before
  exact List.lt_irrefl _ before

theorem merkleRoot_ne_emptyDiffRoot {entries : List (DiffEntry H)} (nonempty : entries ≠ []) :
    merkleRoot (entries.map computeDiffLeafHash) "EZCHAIN_DIFF_NODE_V2" ≠ emptyDiffRoot := by
  have some_hash : entries.map computeDiffLeafHash ≠ [] := List.map_eq_nil_iff.not.mpr nonempty
  intro root_eq
  rcases (reducesTo_merkleRoot "EZCHAIN_DIFF_NODE_V2" some_hash).mem_or_node with
    member | ⟨left, right, node_eq⟩
  · obtain ⟨entry, _, hash_eq⟩ := List.mem_map.mp member
    have chunks_eq := ideal (hash_eq.trans root_eq)
    simp at chunks_eq
  · have chunks_eq := ideal (node_eq.symm.trans root_eq)
    simp at chunks_eq

/-- The diff root commits to the leaf hashes of entries with increasing keys, in their order. -/
theorem computeDiffRoot_eq_iff {left right : List (DiffEntry H)}
    (left_increasing : left.Pairwise fun entry next => entry.addrKey.bytes < next.addrKey.bytes)
    (right_increasing : right.Pairwise fun entry next => entry.addrKey.bytes < next.addrKey.bytes) :
    computeDiffRoot left = computeDiffRoot right ↔
      left.map computeDiffLeafHash = right.map computeDiffLeafHash := by
  cases left with
  | nil =>
      cases right with
      | nil => exact iff_of_true rfl rfl
      | cons entry rest =>
          refine iff_of_false (fun root_eq => ?_) (List.cons_ne_nil _ _).symm
          exact merkleRoot_ne_emptyDiffRoot ideal (List.cons_ne_nil entry rest) root_eq.symm
  | cons first others =>
      cases right with
      | nil =>
          refine iff_of_false (fun root_eq => ?_) (List.cons_ne_nil _ _)
          exact merkleRoot_ne_emptyDiffRoot ideal (List.cons_ne_nil first others) root_eq
      | cons entry rest =>
          refine ⟨fun root_eq => ?_, fun hashes_eq => ?_⟩
          · have left_reduces : ReducesTo (merkleNode "EZCHAIN_DIFF_NODE_V2")
                ((first :: others).map computeDiffLeafHash) (computeDiffRoot (first :: others)) :=
              reducesTo_merkleRoot _ (List.cons_ne_nil _ _)
            have right_reduces : ReducesTo (merkleNode "EZCHAIN_DIFF_NODE_V2")
                ((entry :: rest).map computeDiffLeafHash) (computeDiffRoot (entry :: rest)) :=
              reducesTo_merkleRoot _ (List.cons_ne_nil _ _)
            rw [root_eq] at left_reduces
            have leaves (entries : List (DiffEntry H)) :
                ∀ hash ∈ entries.map computeDiffLeafHash,
                  HasRank (merkleNode "EZCHAIN_DIFF_NODE_V2") 0 hash :=
              List.forall_mem_map.mpr fun entry _ => hasRank_computeDiffLeafHash ideal _ entry
            exact ReducesTo.items_eq (merkleNode_injective ideal _) left_reduces right_reduces
              (nodup_leafHashes ideal left_increasing) (nodup_leafHashes ideal right_increasing)
              (leaves _) (leaves _)
          · exact congrArg (fun hashes => merkleRoot hashes "EZCHAIN_DIFF_NODE_V2") hashes_eq

end Ideal

section Example

open SymbolicDigest

/-- An entry with a key of equal bytes. -/
def keyedEntry (byte : UInt8) : DiffEntry SymbolicDigest where
  addrKey := bytesFilled byte
  newLeaf := ⟨alice, none, none, none⟩
  bundleEnvelope := signedEnvelope firstBundle 1 Nat.one_pos [1]
  bundleHash := computeBundleHash firstBundle

/-- Two entries, and the same two with a third. -/
theorem computeDiffRoot_ne_longer :
    computeDiffRoot [keyedEntry 0, keyedEntry 1] ≠
      computeDiffRoot [keyedEntry 0, keyedEntry 1, keyedEntry 2] := by
  intro root_eq
  have hashes_eq := (computeDiffRoot_eq_iff idealHash (by decide) (by decide)).mp root_eq
  exact absurd (congrArg List.length hashes_eq) (by decide)

end Example

end EZChain
