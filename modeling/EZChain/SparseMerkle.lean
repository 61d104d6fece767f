import EZChain.Library.SparseTree
import EZChain.SymbolicDigest
import Mathlib.Data.Bool.Basic
import Mathlib.Data.List.Lex
import Mathlib.Data.List.Sort

/-!
# Sparse Merkle trees

The state tree maps byte-string keys of the tree's depth to value digests.  Its root is the
binary commitment of the stored values, and a proof lists the sibling digests of one key together
with a flag that says whether the key is claimed to be present.
-/

namespace EZChain

open SparseTree

/-! ## Keys -/

/-- A key whose length matches the depth of a tree. -/
structure TreeKey (depth : ℕ) where
  /-- The bytes of the key, most significant first. -/
  bytes : Bytes
  /-- The key has one bit for each level. -/
  length_eq : bytes.length * 8 = depth
  deriving DecidableEq

/-- A digest-sized string is a key of the state tree. -/
def Bytes32.treeKey (key : Bytes32) : TreeKey 256 :=
  ⟨key.bytes, by rw [key.length_eq]⟩

/-- `int.from_bytes(key, byteorder="big")`. -/
def keyInt (key : Bytes) : ℕ :=
  key.foldl (fun value byte => 256 * value + byte.toNat) 0

/-- `key_int.to_bytes(width, byteorder="big")`. -/
def intToBytes : ℕ → ℕ → Bytes
  | 0, _ => []
  | width + 1, value => intToBytes width (value / 256) ++ [UInt8.ofNat value]

theorem keyInt_concat (key : Bytes) (byte : UInt8) :
    keyInt (key ++ [byte]) = 256 * keyInt key + byte.toNat := by
  simp [keyInt, List.foldl_append]

theorem keyInt_lt (key : Bytes) : keyInt key < 2 ^ (key.length * 8) := by
  induction key using List.reverseRecOn with
  | nil => simp [keyInt]
  | append_singleton key byte induction =>
      have byte_lt : byte.toNat < 256 := byte.toNat_lt
      have power_eq : 2 ^ ((key.length + 1) * 8) = 256 * 2 ^ (key.length * 8) := by
        rw [Nat.add_mul, Nat.pow_add, Nat.mul_comm]
      rw [keyInt_concat, List.length_append, List.length_singleton, power_eq]
      omega

@[simp]
theorem intToBytes_keyInt (key : Bytes) : intToBytes key.length (keyInt key) = key := by
  induction key using List.reverseRecOn with
  | nil => rfl
  | append_singleton key byte induction =>
      have byte_lt : byte.toNat < 256 := byte.toNat_lt
      have prefix_eq : (256 * keyInt key + byte.toNat) / 256 = keyInt key := by omega
      have last_eq : UInt8.ofNat (256 * keyInt key + byte.toNat) = byte := by
        apply UInt8.toNat_inj.mp
        rw [UInt8.toNat_ofNat']
        omega
      rw [keyInt_concat, List.length_append, List.length_singleton, intToBytes, prefix_eq,
        last_eq, induction]

theorem TreeKey.keyInt_lt {depth : ℕ} (key : TreeKey depth) : keyInt key.bytes < 2 ^ depth := by
  have bound := EZChain.keyInt_lt key.bytes
  rwa [key.length_eq] at bound

/-- Keys of one tree are told apart by their integers. -/
theorem TreeKey.keyInt_injective {depth : ℕ} :
    Function.Injective fun key : TreeKey depth => keyInt key.bytes := by
  intro left right equality
  have length_eq : left.bytes.length = right.bytes.length := by
    have left_length := left.length_eq
    have right_length := right.length_eq
    omega
  have bytes_eq : left.bytes = right.bytes := by
    rw [← intToBytes_keyInt left.bytes, ← intToBytes_keyInt right.bytes, length_eq]
    exact congrArg _ equality
  cases left
  cases right
  cases bytes_eq
  rfl

/-! ## Node digests -/

section Digests

variable {H : Type} [Crypto H]

/-- `EMPTY_LEAF_HASH`. -/
def emptyLeafHash : H := Crypto.keccak256 [.tag "EZCHAIN_SMT_EMPTY_LEAF_V2"]

/-- `_node_hash`. -/
def nodeHash (left right : H) : H :=
  Crypto.keccak256 [.tag "EZCHAIN_SMT_NODE_V2", .digest left, .digest right]

/-- `_leaf_node_hash`. -/
def leafNodeHash (key : Bytes) (valueHash : H) : H :=
  Crypto.keccak256 [.tag "EZCHAIN_SMT_LEAF_V2", .bytes key, .digest valueHash]

theorem nodeHash_injective (ideal : IdealHash H) {left right left' right' : H}
    (equality : nodeHash left right = nodeHash left' right') : left = left' ∧ right = right' := by
  simpa using ideal equality

theorem leafNodeHash_injective (ideal : IdealHash H) {key key' : Bytes} {value value' : H}
    (equality : leafNodeHash key value = leafNodeHash key' value') :
    key = key' ∧ value = value' := by
  simpa using ideal equality

theorem leafNodeHash_ne_emptyLeafHash (ideal : IdealHash H) (key : Bytes) (value : H) :
    leafNodeHash key value ≠ emptyLeafHash := by
  intro equality
  simpa using ideal equality

end Digests

/-! ## Trees and proofs -/

/-- `SparseMerkleTree`: values stored under the integers of their keys. -/
@[ext]
structure SparseMerkleTree (H : Type) (depth : ℕ) where
  /-- Value digests by key. -/
  values : OrderedDict ℕ H
  /-- Every key has at most `depth` bits. -/
  keys_lt : ∀ key ∈ values.keys, key < 2 ^ depth
  /-- A tree has at least one level. -/
  depth_pos : 0 < depth

namespace SparseMerkleTree

variable {H : Type} {depth : ℕ}

/-- `SparseMerkleTree(depth)`. -/
def empty (depth_pos : 0 < depth) : SparseMerkleTree H depth :=
  ⟨∅, by simp [OrderedDict.keys, EmptyCollection.emptyCollection, OrderedDict.empty], depth_pos⟩

/-- Value digest stored under a key. -/
def get (tree : SparseMerkleTree H depth) (key : Bytes) : Option H :=
  tree.values.get? (keyInt key)

/-- Store a value digest under a key. -/
def set (tree : SparseMerkleTree H depth) (key : TreeKey depth) (valueHash : H) :
    SparseMerkleTree H depth where
  values := tree.values.set (keyInt key.bytes) valueHash
  keys_lt := by
    intro other member
    rcases (OrderedDict.mem_keys_set _ _ _ _).mp member with rfl | member
    · exact key.keyInt_lt
    · exact tree.keys_lt other member
  depth_pos := tree.depth_pos

@[simp]
theorem get_empty (depth_pos : 0 < depth) (key : Bytes) :
    (empty depth_pos : SparseMerkleTree H depth).get key = none := rfl

theorem get_set (tree : SparseMerkleTree H depth) (key other : TreeKey depth) (valueHash : H) :
    (tree.set key valueHash).get other.bytes =
      if key = other then some valueHash else tree.get other.bytes := by
  simp only [get, set, OrderedDict.get?_set, TreeKey.keyInt_injective.eq_iff]

variable [Crypto H]

/-- `_leaf_node_hash` of an entry, whose integer key is written with the tree's width. -/
def entryHash (depth key : ℕ) (valueHash : H) : H :=
  leafNodeHash (intToBytes (depth / 8) key) valueHash

/-- Digest of the whole tree. -/
def root (tree : SparseMerkleTree H depth) : H :=
  subtreeHash nodeHash (entryHash depth) emptyLeafHash depth tree.values.entries

/-- Sibling digests of a key, and whether the key is present. -/
def prove (tree : SparseMerkleTree H depth) (key : TreeKey depth) : SparseMerkleProof H where
  siblings :=
    siblings nodeHash (entryHash depth) emptyLeafHash (keyInt key.bytes) depth tree.values.entries
  existence := (tree.get key.bytes).isSome

end SparseMerkleTree

/-- `verify_proof`: climb from the claimed leaf, or from the empty leaf, to the root. -/
def verifyProof {H : Type} [Crypto H] [DecidableEq H] (root : H) (key : Bytes) (valueHash : H)
    (proof : SparseMerkleProof H) (depth : ℕ) : Bool :=
  if key.length * 8 ≠ depth then false
  else if proof.siblings.length ≠ depth then false
  else
    climb nodeHash (keyInt key) 0
      (if proof.existence then leafNodeHash key valueHash else emptyLeafHash) proof.siblings = root

namespace SparseMerkleTree

variable {H : Type} [Crypto H] {depth : ℕ}

/-- Digest at the leaf that a key selects. -/
def leafHash (tree : SparseMerkleTree H depth) (key : TreeKey depth) : H :=
  match tree.get key.bytes with
  | none => emptyLeafHash
  | some valueHash => leafNodeHash key.bytes valueHash

theorem subtreeHash_pathItems (tree : SparseMerkleTree H depth) (key : TreeKey depth) :
    subtreeHash nodeHash (entryHash depth) emptyLeafHash 0
        (pathItems (keyInt key.bytes) depth tree.values.entries) = tree.leafHash key := by
  have bounded : ∀ item ∈ tree.values.entries, item.1 < 2 ^ depth :=
    fun item member => tree.keys_lt item.1 (List.mem_map_of_mem member)
  have width_eq : depth / 8 = key.bytes.length := by
    have length_eq := key.length_eq
    omega
  rw [leaf_pathItems nodeHash (entryHash depth) emptyLeafHash tree.values.nodup bounded
    key.keyInt_lt]
  simp only [leafHash, get, OrderedDict.get?, entryHash, width_eq, intToBytes_keyInt]
  cases OrderedDict.findValue (keyInt key.bytes) tree.values.entries <;> rfl

theorem climb_prove (tree : SparseMerkleTree H depth) (key : TreeKey depth) :
    climb nodeHash (keyInt key.bytes) 0 (tree.leafHash key) (tree.prove key).siblings =
      tree.root := by
  rw [← subtreeHash_pathItems]
  exact climb_siblings _ _ _ _ _ _

/-- The proof generated for a present key verifies. -/
theorem verifyProof_prove [DecidableEq H] (tree : SparseMerkleTree H depth)
    (key : TreeKey depth) {valueHash : H} (present : tree.get key.bytes = some valueHash) :
    verifyProof tree.root key.bytes valueHash (tree.prove key) depth = true := by
  have climbs := tree.climb_prove key
  simp only [leafHash, present] at climbs
  simp only [verifyProof, key.length_eq, prove, length_siblings, present, ne_eq,
    not_true_eq_false, if_false, Option.isSome_some, if_true, decide_eq_true_eq]
  simpa only [prove] using climbs

/-- A verified proof lists the tree's own siblings and starts at the tree's own leaf. -/
theorem verifyProof_eq_true_iff [DecidableEq H] (ideal : IdealHash H)
    (tree : SparseMerkleTree H depth) (key : TreeKey depth) (valueHash : H)
    (proof : SparseMerkleProof H) :
    verifyProof tree.root key.bytes valueHash proof depth = true ↔
      proof.siblings = (tree.prove key).siblings ∧
        tree.leafHash key =
          if proof.existence then leafNodeHash key.bytes valueHash else emptyLeafHash := by
  simp only [verifyProof, key.length_eq, ne_eq, not_true_eq_false, if_false]
  split
  · next length_ne =>
      simp only [Bool.false_eq_true, false_iff, not_and]
      intro siblings_eq
      exact absurd (by rw [siblings_eq]; exact length_siblings _ _ _ _ _ _) length_ne
  · next length_eq =>
      have length_eq := not_not.mp length_eq
      rw [decide_eq_true_eq, ← tree.subtreeHash_pathItems key]
      have path_iff := climb_eq_subtreeHash_iff nodeHash (entryHash depth) emptyLeafHash
        (nodeHash_injective ideal) (keyInt key.bytes)
        (if proof.existence then leafNodeHash key.bytes valueHash else emptyLeafHash)
        proof.siblings tree.values.entries
      rw [length_eq] at path_iff
      rw [root, path_iff, and_comm]
      simp only [prove, eq_comm]

/-! ## Soundness of verified proofs -/

/-- The proof is the tree's own proof that a key is absent. -/
def IsAbsenceProof (tree : SparseMerkleTree H depth) (key : Bytes) (proof : SparseMerkleProof H) :
    Prop :=
  ∃ treeKey : TreeKey depth,
    treeKey.bytes = key ∧ tree.get key = none ∧ proof = tree.prove treeKey

theorem verifyProof_of_isAbsenceProof [DecidableEq H] {tree : SparseMerkleTree H depth}
    {key : Bytes} {proof : SparseMerkleProof H} (absence : tree.IsAbsenceProof key proof)
    (valueHash : H) : verifyProof tree.root key valueHash proof depth = true := by
  obtain ⟨treeKey, rfl, absent, rfl⟩ := absence
  have climbs := tree.climb_prove treeKey
  simp only [leafHash, absent] at climbs
  simp only [verifyProof, treeKey.length_eq, prove, length_siblings, absent, ne_eq,
    not_true_eq_false, if_false, Option.isSome_none, Bool.false_eq_true, decide_eq_true_eq]
  simpa only [prove] using climbs

/-- Verification yields the stored value exactly outside the tree's own proofs of absence. -/
theorem verifyProof_sound_iff [DecidableEq H] (ideal : IdealHash H)
    (tree : SparseMerkleTree H depth) (key : Bytes) (valueHash : H)
    (proof : SparseMerkleProof H) :
    (verifyProof tree.root key valueHash proof depth = true → tree.get key = some valueHash) ↔
      ¬ tree.IsAbsenceProof key proof := by
  constructor
  · intro sound absence
    have present := sound (verifyProof_of_isAbsenceProof absence valueHash)
    obtain ⟨_, _, absent, _⟩ := absence
    exact Option.some_ne_none valueHash (present.symm.trans absent)
  · intro not_absence verified
    by_cases length_eq : key.length * 8 = depth
    · obtain ⟨siblings_eq, leaf_eq⟩ :=
        (verifyProof_eq_true_iff ideal tree ⟨key, length_eq⟩ valueHash proof).mp verified
      simp only [leafHash] at leaf_eq
      cases found : tree.get key with
      | none =>
          cases existence : proof.existence with
          | false =>
              refine absurd ⟨⟨key, length_eq⟩, rfl, found, ?_⟩ not_absence
              cases proof
              simp_all [prove]
          | true =>
              simp only [found, existence, if_true] at leaf_eq
              exact absurd leaf_eq.symm (leafNodeHash_ne_emptyLeafHash ideal key valueHash)
      | some stored =>
          cases existence : proof.existence with
          | false =>
              simp only [found, existence, Bool.false_eq_true, if_false] at leaf_eq
              exact absurd leaf_eq (leafNodeHash_ne_emptyLeafHash ideal key stored)
          | true =>
              simp only [found, existence, if_true] at leaf_eq
              rw [(leafNodeHash_injective ideal leaf_eq).2]
    · simp [verifyProof, length_eq] at verified

/-- The path of a stored key yields the stored value. -/
theorem verifyProof_sound_stored :
    let tree := (empty (by decide : 0 < 8)).set ⟨[7], rfl⟩ (SymbolicDigest.filled 1)
    verifyProof tree.root [7] (SymbolicDigest.filled 1) (tree.prove ⟨[7], rfl⟩) 8 = true →
      tree.get [7] = some (SymbolicDigest.filled 1) := by
  intro tree
  apply (verifyProof_sound_iff SymbolicDigest.idealHash tree [7] _ _).mpr
  rintro ⟨_, _, absent, _⟩
  simp [tree, get, set] at absent

/-- The empty tree proves the absence of a key under every value. -/
theorem verifyProof_empty_unsound :
    let tree : SparseMerkleTree SymbolicDigest 8 := empty (by decide)
    verifyProof tree.root [7] (SymbolicDigest.filled 1) (tree.prove ⟨[7], rfl⟩) 8 = true ∧
      tree.get [7] ≠ some (SymbolicDigest.filled 1) := by
  intro tree
  exact ⟨verifyProof_of_isAbsenceProof ⟨⟨[7], rfl⟩, rfl, rfl, rfl⟩ _, by simp [tree]⟩

end SparseMerkleTree

/-! ## Multiproofs -/

/-- `_key_bits`: the bits of a key from the root down. -/
def keyBits (key : Bytes) (depth : ℕ) : List Bool :=
  (List.range depth).map fun index =>
    (key.getD (index / 8) 0).toNat.testBit (7 - index % 8)

/-- `_sibling_prefix_for_level`: path of the sibling node at a level. -/
def siblingPrefixForLevel (bits : List Bool) (level : ℕ) : List Bool :=
  let splitIndex := bits.length - level - 1
  bits.take splitIndex ++ [!bits.getD splitIndex false]

/-- Order of multiproof nodes: shorter prefixes first. -/
def prefixLe {H : Type} (left right : List Bool × H) : Bool :=
  left.1.length < right.1.length || left.1.length = right.1.length && left.1 ≤ right.1

/-- Record the siblings of one key; a node met before keeps its first digest. -/
def addProofNodes {H : Type} (bits : List Bool) :
    ℕ → List H → OrderedDict (List Bool) H → OrderedDict (List Bool) H
  | _, [], nodes => nodes
  | level, sibling :: rest, nodes =>
      let path := siblingPrefixForLevel bits level
      addProofNodes bits (level + 1) rest
        (if (nodes.get? path).isSome then nodes else nodes.set path sibling)

/-- `build_multiproof`: the sibling nodes of several keys, each listed once. -/
def buildMultiproof {H : Type} [Crypto H] {depth : ℕ} (tree : SparseMerkleTree H depth)
    (keys : List (TreeKey depth)) : SparseMerkleMultiProof H where
  depth := depth
  keys := keys.map TreeKey.bytes
  nodes :=
    let nodes := keys.foldl
      (fun nodes key => addProofNodes (keyBits key.bytes depth) 0 (tree.prove key).siblings nodes) ∅
    (nodes.entries.insertionSort fun left right => prefixLe left right).map
      fun node => ⟨node.1, node.2⟩

end EZChain
