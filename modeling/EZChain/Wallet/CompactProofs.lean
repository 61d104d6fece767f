import EZChain.BigEndian
import EZChain.Wallet.StoredProofs

/-!
# Compact proofs

A multiproof lists each sibling node of its keys once, under the path from the root to the node.
Keys whose paths reach one sibling agree on every bit above it, so they have the same digest there,
and the digests of one key can be read off again.  The wallet store drops the proof of a receipt
when the stored batch yields it, and puts it back when the receipt is read.
-/

namespace EZChain

open Checks SparseTree

variable {H : Type} [Crypto H]

/-! ## Paths of sibling nodes -/

section Paths

variable {depth : ℕ}

@[simp]
theorem length_keyBits (key : Bytes) (depth : ℕ) : (keyBits key depth).length = depth := by
  simp [keyBits]

theorem getElem?_keyBits (key : TreeKey depth) {index : ℕ} (index_lt : index < depth) :
    (keyBits key.bytes depth)[index]? =
      some ((keyInt key.bytes).testBit (depth - 1 - index)) := by
  have inside : index < key.bytes.length * 8 := by
    rw [key.length_eq]
    exact index_lt
  have bit_eq := testBit_keyInt key.bytes inside
  rw [key.length_eq] at bit_eq
  rw [bit_eq, keyBits, List.getElem?_map, List.getElem?_range index_lt]
  rfl

/-- A path names its level and all bits of the key from this level upwards. -/
theorem agree_of_siblingPrefix_eq {key other : TreeKey depth} {level level' : ℕ}
    (level_lt : level < depth) (level_lt' : level' < depth)
    (same : siblingPrefixForLevel (keyBits key.bytes depth) level =
      siblingPrefixForLevel (keyBits other.bytes depth) level') :
    level = level' ∧ ∀ bit, level ≤ bit → bit < depth →
      (keyInt key.bytes).testBit bit = (keyInt other.bytes).testBit bit := by
  obtain ⟨above_eq, last_eq⟩ := List.append_inj' same rfl
  simp only [length_keyBits] at above_eq last_eq
  have lengths := congrArg List.length above_eq
  simp only [List.length_take, length_keyBits] at lengths
  obtain rfl : level = level' := by omega
  refine ⟨rfl, fun bit from_level bit_lt => ?_⟩
  have index_lt : depth - 1 - bit < depth := by omega
  have bit_eq : depth - 1 - (depth - 1 - bit) = bit := by omega
  have key_bit := getElem?_keyBits key index_lt
  have other_bit := getElem?_keyBits other index_lt
  rw [bit_eq] at key_bit other_bit
  apply Option.some.inj
  rw [← key_bit, ← other_bit]
  rcases Nat.lt_or_ge level bit with above | at_level
  · -- The bit stands in the common part of the two paths.
    have inside : depth - 1 - bit < depth - level - 1 := by omega
    have common := congrArg (fun bits => bits[depth - 1 - bit]?) above_eq
    simpa only [List.getElem?_take_of_lt inside] using common
  · -- The bit is the one that the paths flip.
    have split_eq : depth - level - 1 = depth - 1 - bit := by omega
    rw [split_eq] at last_eq
    have flipped := Bool.not_inj (List.singleton_inj.mp last_eq)
    simp only [List.getD_eq_getElem?_getD, key_bit, other_bit, Option.getD_some] at flipped
    rw [key_bit, other_bit, flipped]

end Paths

/-! ## Multiproofs -/

/-- The sibling nodes of one key, with their paths. -/
def pathNodes (bits : List Bool) : ℕ → List H → List (List Bool × H)
  | _, [] => []
  | level, sibling :: rest =>
      (siblingPrefixForLevel bits level, sibling) :: pathNodes bits (level + 1) rest

omit [Crypto H] in
theorem addProofNodes_eq (bits : List Bool) (level : ℕ) (siblings : List H)
    (nodes : OrderedDict (List Bool) H) :
    addProofNodes bits level siblings nodes =
      nodes.setDefaults (pathNodes bits level siblings) := by
  induction siblings generalizing level nodes with
  | nil => rfl
  | cons sibling rest induction => exact induction (level + 1) _

omit [Crypto H] in
theorem mem_pathNodes {bits : List Bool} {start : ℕ} {siblings : List H}
    {path : List Bool} {nodeHash : H} :
    (path, nodeHash) ∈ pathNodes bits start siblings ↔
      ∃ offset, siblings[offset]? = some nodeHash ∧
        siblingPrefixForLevel bits (start + offset) = path := by
  induction siblings generalizing start with
  | nil => simp [pathNodes]
  | cons sibling rest induction =>
      simp only [pathNodes, List.mem_cons, Prod.mk.injEq, induction]
      constructor
      · rintro (⟨rfl, rfl⟩ | ⟨offset, found, rfl⟩)
        · exact ⟨0, rfl, rfl⟩
        · exact ⟨offset + 1, found, by rw [Nat.add_right_comm, Nat.add_assoc]⟩
      · rintro ⟨offset, found, rfl⟩
        cases offset with
        | zero => exact .inl ⟨rfl, (Option.some.inj found).symm⟩
        | succ offset => exact .inr ⟨offset, found, by rw [Nat.add_right_comm, Nat.add_assoc]⟩

section Multiproofs

variable {depth : ℕ} (tree : SparseMerkleTree H depth)

/-- The sibling nodes of all keys, in the order in which they are recorded. -/
def treeNodes (keys : List (TreeKey depth)) : List (List Bool × H) :=
  keys.flatMap fun key => pathNodes (keyBits key.bytes depth) 0 (tree.prove key).siblings

theorem foldl_addProofNodes (keys : List (TreeKey depth)) (nodes : OrderedDict (List Bool) H) :
    keys.foldl (fun nodes key =>
        addProofNodes (keyBits key.bytes depth) 0 (tree.prove key).siblings nodes) nodes =
      nodes.setDefaults (treeNodes tree keys) := by
  induction keys generalizing nodes with
  | nil => rfl
  | cons key keys induction =>
      rw [List.foldl_cons, induction, addProofNodes_eq, treeNodes, treeNodes, List.flatMap_cons,
        OrderedDict.setDefaults_append]

theorem exists_key_of_mem_treeNodes {keys : List (TreeKey depth)} {path : List Bool} {nodeHash : H}
    (member : (path, nodeHash) ∈ treeNodes tree keys) :
    ∃ key level, level < depth ∧ siblingPrefixForLevel (keyBits key.bytes depth) level = path ∧
      (tree.prove key).siblings[level]? = some nodeHash := by
  obtain ⟨key, _, member⟩ := List.mem_flatMap.mp member
  obtain ⟨level, found, path_eq⟩ := mem_pathNodes.mp member
  obtain ⟨level_lt, _⟩ := List.getElem?_eq_some_iff.mp found
  rw [Nat.zero_add] at path_eq
  refine ⟨key, level, ?_, path_eq, found⟩
  simpa only [SparseMerkleTree.prove, length_siblings] using level_lt

/-- The first node recorded under a path of a key is the key's own sibling. -/
theorem findValue_treeNodes {keys : List (TreeKey depth)} {key : TreeKey depth}
    (listed : key ∈ keys) {level : ℕ} (level_lt : level < depth) :
    OrderedDict.findValue (siblingPrefixForLevel (keyBits key.bytes depth) level)
        (treeNodes tree keys) = (tree.prove key).siblings[level]? := by
  have inside : level < (tree.prove key).siblings.length := by
    simpa only [SparseMerkleTree.prove, length_siblings] using level_lt
  have recorded : (siblingPrefixForLevel (keyBits key.bytes depth) level,
      (tree.prove key).siblings[level]) ∈ treeNodes tree keys := by
    apply List.mem_flatMap.mpr
    refine ⟨key, listed, mem_pathNodes.mpr ⟨level, List.getElem?_eq_getElem inside, ?_⟩⟩
    rw [Nat.zero_add]
  cases found : OrderedDict.findValue (siblingPrefixForLevel (keyBits key.bytes depth) level)
      (treeNodes tree keys) with
  | none =>
      have absent := (OrderedDict.findValue_eq_none_iff _ _).mp found
      exact absurd (List.mem_map_of_mem recorded) absent
  | some nodeHash =>
      -- Whichever key recorded the node first agrees with this one above the level.
      obtain ⟨other, level', level_lt', path_eq, sibling_eq⟩ :=
        exists_key_of_mem_treeNodes tree (OrderedDict.mem_of_findValue found)
      obtain ⟨rfl, agree⟩ := agree_of_siblingPrefix_eq level_lt' level_lt path_eq
      rw [← sibling_eq]
      exact getElem?_siblings_congr _ _ _ agree _

theorem nodeMap_buildMultiproof {keys : List (TreeKey depth)} {key : TreeKey depth}
    (listed : key ∈ keys) {level : ℕ} (level_lt : level < depth) :
    ((∅ : OrderedDict (List Bool) H).setAll
        ((buildMultiproof tree keys).nodes.map fun node => (node.prefixBits, node.nodeHash))).get?
      (siblingPrefixForLevel (keyBits key.bytes depth) level) =
        (tree.prove key).siblings[level]? := by
  let nodes := (∅ : OrderedDict (List Bool) H).setDefaults (treeNodes tree keys)
  have listed_nodes : (buildMultiproof tree keys).nodes.map
      (fun node => (node.prefixBits, node.nodeHash)) =
        nodes.entries.insertionSort fun left right => prefixLe left right := by
    simp only [buildMultiproof, foldl_addProofNodes, List.map_map]
    exact List.map_id _
  rw [listed_nodes, OrderedDict.get?_setAll_perm nodes (List.perm_insertionSort _ _),
    OrderedDict.get?_setDefaults, OrderedDict.get?_empty, Option.none_or,
    findValue_treeNodes tree listed level_lt]

/-- The proof of a listed key is read off the multiproof. -/
theorem materializeProof_buildMultiproof {keys : List (TreeKey depth)} {key : TreeKey depth}
    (listed : key ∈ keys) (present : (tree.get key.bytes).isSome) :
    materializeProof (buildMultiproof tree keys) key.bytes = .ok (tree.prove key) := by
  have length_eq : (tree.prove key).siblings.length = depth := length_siblings _ _ _ _ _ _
  simp only [materializeProof, bind_eq_ok, require_eq_ok, exists_const, pure_eq_ok]
  refine ⟨key.length_eq, ?_⟩
  have existence_eq : decide (key.bytes ∈ (buildMultiproof tree keys).keys) =
      (tree.prove key).existence := by
    have member : key.bytes ∈ (buildMultiproof tree keys).keys := List.mem_map_of_mem listed
    rw [decide_eq_true member]
    exact present.symm
  have siblings_eq : ((List.range depth).map fun level =>
      (((∅ : OrderedDict (List Bool) H).setAll ((buildMultiproof tree keys).nodes.map
        fun node => (node.prefixBits, node.nodeHash))).get?
          (siblingPrefixForLevel (keyBits key.bytes depth) level)).getD
        (defaultHash nodeHash emptyLeafHash level)) = (tree.prove key).siblings := by
    apply List.ext_getElem
    · rw [List.length_map, List.length_range, length_eq]
    · intro level left_lt right_lt
      rw [length_eq] at right_lt
      rw [List.getElem_map, List.getElem_range, nodeMap_buildMultiproof tree listed right_lt,
        List.getElem?_eq_getElem, Option.getD_some]
  exact congrArg₂ SparseMerkleProof.mk siblings_eq existence_eq

/-- `verify_multiproof`. -/
def verifyMultiproof [DecidableEq H] (root : H) (key : Bytes) (valueHash : H)
    (multiProof : SparseMerkleMultiProof H) : Except String Bool := do
  let proof ← materializeProof multiProof key
  pure (verifyProof root key valueHash proof multiProof.depth)

theorem verifyMultiproof_buildMultiproof [DecidableEq H] {keys : List (TreeKey depth)}
    {key : TreeKey depth} (listed : key ∈ keys) {valueHash : H}
    (present : tree.get key.bytes = some valueHash) :
    verifyMultiproof tree.root key.bytes valueHash (buildMultiproof tree keys) = .ok true := by
  have materialized := materializeProof_buildMultiproof tree listed (by rw [present]; rfl)
  simp only [verifyMultiproof, bind_eq_ok, pure_eq_ok]
  exact ⟨_, materialized, tree.verifyProof_prove key present⟩

end Multiproofs

/-! ## Compaction -/

/-- Every receipt of the witness carries its own proof. -/
def WitnessV2.Proved {H : Type} (witness : WitnessV2 H) : Prop :=
  ∀ unit ∈ witness.allUnits, ∃ proof, unit.receipt.proof = .single proof

namespace StoredWallet

/-- Every stored batch is one of the state tree. -/
def FullDepth {H : Type} (store : StoredWallet H) : Prop :=
  ∀ entry ∈ store.proofBatches.entries, entry.2.multiProof.depth = 256

variable [DecidableEq H] (store : StoredWallet H)

/-- `_compact_witness_with_batch`. -/
def compactWitness (witness : WitnessV2 H) : Except String (WitnessV2 H) :=
  witness.mapUnits (ConfirmedBundleUnit.compact store.getReceiptProofBatch)

/-- `_materialize_witness_with_lookup`. -/
def materializeWitness (witness : WitnessV2 H) : Except String (WitnessV2 H) :=
  witness.mapUnits (ConfirmedBundleUnit.materialize store.getReceiptProofBatch)

variable {store}

/-- Compaction raises only where a batch of another depth is stored. -/
theorem FullDepth.exists_compact (full : store.FullDepth) (receipt : Receipt H)
    (senderAddr : Address) (batchId : BatchId H) :
    ∃ row, receipt.compact senderAddr (store.getReceiptProofBatch batchId) = .ok row := by
  unfold Receipt.compact
  split
  · exact ⟨_, rfl⟩
  · exact ⟨_, rfl⟩
  · next proof batch _ found =>
      split
      · exact ⟨_, rfl⟩
      · have depth_eq : batch.multiProof.depth = 256 :=
          full _ ((OrderedDict.get?_eq_some_iff _ _ _).mp found)
        have length_eq : (computeAddrKey H senderAddr).bytes.length * 8 =
            batch.multiProof.depth := by
          rw [depth_eq, (computeAddrKey H senderAddr).length_eq]
        obtain ⟨siblings, materialized⟩ := exists_materializeProof_eq_ok length_eq
        simp only [materialized]
        exact ⟨_, rfl⟩

theorem FullDepth.exists_compactUnit (full : store.FullDepth) (unit : ConfirmedBundleUnit H) :
    ∃ row, unit.compact store.getReceiptProofBatch = .ok row := by
  obtain ⟨receipt, compacted⟩ := full.exists_compact unit.receipt unit.bundleSidecar.senderAddr
    unit.receipt.headerLite.batchId
  simp only [ConfirmedBundleUnit.compact, bind_eq_ok, pure_eq_ok]
  exact ⟨_, receipt, compacted, rfl⟩

theorem FullDepth.exists_compactWitness (full : store.FullDepth) (witness : WitnessV2 H) :
    ∃ row, store.compactWitness witness = .ok row := by
  have chains : ∀ chain : List (ConfirmedBundleUnit H), ∃ rows,
      chain.mapM (ConfirmedBundleUnit.compact store.getReceiptProofBatch) = .ok rows :=
    fun chain => exists_mapM_of_forall_mem fun unit _ => full.exists_compactUnit unit
  rw [compactWitness]
  induction witness with
  | genesis value owner chain anchor =>
      obtain ⟨rows, mapped⟩ := chains chain
      simp only [WitnessV2.mapUnits, bind_eq_ok, pure_eq_ok]
      exact ⟨_, rows, mapped, rfl⟩
  | checkpoint value owner chain anchor =>
      obtain ⟨rows, mapped⟩ := chains chain
      simp only [WitnessV2.mapUnits, bind_eq_ok, pure_eq_ok]
      exact ⟨_, rows, mapped, rfl⟩
  | prior value owner chain acquireTx priorWitness induction =>
      obtain ⟨rows, mapped⟩ := chains chain
      obtain ⟨priorRow, prior_mapped⟩ := induction
      simp only [WitnessV2.mapUnits, bind_eq_ok, pure_eq_ok]
      exact ⟨_, rows, mapped, priorRow, prior_mapped, rfl⟩

theorem materializeUnit_of_compact {unit row : ConfirmedBundleUnit H} {proof : SparseMerkleProof H}
    (proved : unit.receipt.proof = .single proof)
    (compacted : unit.compact store.getReceiptProofBatch = .ok row) :
    row.materialize store.getReceiptProofBatch = .ok unit := by
  simp only [ConfirmedBundleUnit.compact, bind_eq_ok, pure_eq_ok] at compacted
  obtain ⟨receipt, receipt_compacted, rfl⟩ := compacted
  simp only [ConfirmedBundleUnit.materialize, bind_eq_ok, pure_eq_ok]
  exact ⟨unit.receipt, Receipt.materialize_of_compact store.getReceiptProofBatch_keyed proved
    receipt_compacted, rfl⟩

/-- A witness whose receipts carry proofs is read back as it was, however many owners it names. -/
theorem materializeWitness_of_compact {witness row : WitnessV2 H} (proved : witness.Proved)
    (compacted : store.compactWitness witness = .ok row) :
    store.materializeWitness row = .ok witness := by
  have related := (WitnessV2.mapUnits_eq_ok.mp compacted).flip
  have back_iff : ∀ unitRow unit : ConfirmedBundleUnit H,
      unit.compact store.getReceiptProofBatch = .ok unitRow →
      (unitRow.materialize store.getReceiptProofBatch = .ok unit ↔
        ∀ other, unit.compact store.getReceiptProofBatch = .ok other →
          other.materialize store.getReceiptProofBatch = .ok unit) := by
    intro unitRow unit unit_compacted
    constructor
    · intro read other other_compacted
      rw [← Except.ok.inj (unit_compacted.symm.trans other_compacted)]
      exact read
    · exact fun reads => reads unitRow unit_compacted
  apply WitnessV2.mapUnits_eq_ok.mpr
  rw [related.iff_allUnits, forall₂_iff_forall_mem related.allUnits back_iff]
  intro unit member unitRow unit_compacted
  obtain ⟨proof, single⟩ := proved unit member
  exact materializeUnit_of_compact single unit_compacted

end StoredWallet

/-! ## Agreement -/

/-- Proofs verify, multiproofs yield the same proofs, and compaction is undone by reading. -/
theorem proofs_agree_with_compact_forms [DecidableEq H] :
    (∀ {depth : ℕ} (tree : SparseMerkleTree H depth) (key : TreeKey depth) (valueHash : H),
      tree.get key.bytes = some valueHash →
        verifyProof tree.root key.bytes valueHash (tree.prove key) depth = true) ∧
    (∀ {depth : ℕ} (tree : SparseMerkleTree H depth) (keys : List (TreeKey depth)),
      (∀ key ∈ keys, (tree.get key.bytes).isSome) → ∀ key ∈ keys,
        materializeProof (buildMultiproof tree keys) key.bytes = .ok (tree.prove key) ∧
        ∀ valueHash, tree.get key.bytes = some valueHash →
          verifyMultiproof tree.root key.bytes valueHash (buildMultiproof tree keys) =
            .ok true) ∧
    (∀ store later : StoredWallet H, later.proofBatches = store.proofBatches →
      (∀ (receipt : Receipt H) (senderAddr : Address) (batchId : BatchId H),
        (∃ proof, receipt.proof = .single proof) →
          (∀ row, receipt.compact senderAddr (store.getReceiptProofBatch batchId) = .ok row →
            row.materialize later.getReceiptProofBatch = .ok receipt) ∧
          (store.FullDepth → ∃ row,
            receipt.compact senderAddr (store.getReceiptProofBatch batchId) = .ok row)) ∧
      (∀ witness : WitnessV2 H, witness.Proved →
        (∀ row, store.compactWitness witness = .ok row →
          later.materializeWitness row = .ok witness) ∧
        (store.FullDepth → ∃ row, store.compactWitness witness = .ok row))) := by
  refine ⟨fun tree key valueHash present => tree.verifyProof_prove key present, ?_, ?_⟩
  · intro depth tree keys stored key listed
    refine ⟨materializeProof_buildMultiproof tree listed (stored key listed), ?_⟩
    exact fun valueHash present => verifyMultiproof_buildMultiproof tree listed present
  · intro store later unchanged
    have lookup_eq : later.getReceiptProofBatch = store.getReceiptProofBatch := by
      unfold StoredWallet.getReceiptProofBatch
      rw [unchanged]
    constructor
    · rintro receipt senderAddr batchId ⟨proof, single⟩
      rw [lookup_eq]
      exact ⟨fun row compacted => Receipt.materialize_of_compact store.getReceiptProofBatch_keyed
        single compacted, fun full => full.exists_compact receipt senderAddr batchId⟩
    · intro witness proved
      unfold StoredWallet.materializeWitness
      rw [lookup_eq]
      exact ⟨fun row compacted => StoredWallet.materializeWitness_of_compact proved compacted,
        fun full => full.exists_compactWitness witness⟩

/-- Two keys that diverge at the fifth bit share their upper siblings. -/
theorem proofs_agree_twoKeys :
    let first : TreeKey 8 := ⟨[1], rfl⟩
    let second : TreeKey 8 := ⟨[9], rfl⟩
    let tree := ((SparseMerkleTree.empty (by decide)).set first (SymbolicDigest.filled 170)).set
      second (SymbolicDigest.filled 187)
    materializeProof (buildMultiproof tree [first, second]) second.bytes =
        .ok (tree.prove second) ∧
      verifyMultiproof tree.root second.bytes (.filled 187) (buildMultiproof tree [first, second]) =
        .ok true := by
  intro first second tree
  have stored : ∀ key ∈ [first, second], (tree.get key.bytes).isSome := by
    intro key member
    simp only [List.mem_cons, List.not_mem_nil, or_false] at member
    rcases member with rfl | rfl
    · simp only [tree, SparseMerkleTree.get_set, if_true]
      split <;> rfl
    · simp [tree, SparseMerkleTree.get_set]
  have agree := proofs_agree_with_compact_forms.2.1 tree [first, second] stored second (by simp)
  exact ⟨agree.1, agree.2 (.filled 187) (by simp [tree, SparseMerkleTree.get_set])⟩

end EZChain
