import EZChain.Chain.State

/-!
# Accepted blocks

What `apply_block` has checked when it succeeds, and the state it leaves.  Later results use the
facts collected here and never unfold the checks again.
-/

namespace EZChain

open Checks

namespace ChainStateV2

variable {H : Type} [Crypto H] [DecidableEq H]

/-- Everything `apply_block` checks about one diff entry against the state before the block. -/
structure EntryAccepted (state : ChainStateV2 H) (block : BlockV2 H) (entry : DiffEntry H)
    (sidecar : BundleSidecar) (publicKey : Bytes) : Prop where
  signer : Crypto.addressFromPublicKeyPem H publicKey = .ok entry.newLeaf.addr
  sender : sidecar.senderAddr = entry.newLeaf.addr
  bundleHash : entry.bundleHash = computeBundleHash sidecar
  envelopeHash : entry.bundleEnvelope.bundleHash = computeBundleHash sidecar
  claimSet : entry.bundleEnvelope.claimSetHash = none ∨
    entry.bundleEnvelope.claimSetHash = some (claimRangeSetHash (claimRangeSetFromSidecar sidecar))
  leafClaimSet : entry.newLeaf.claimSetHash = entry.bundleEnvelope.claimSetHash
  signature : verifyBundleEnvelope entry.bundleEnvelope publicKey = true
  notExpired : block.header.height ≤ entry.bundleEnvelope.expiryHeight
  prevRef : entry.newLeaf.prevRef = state.headRefOf entry.newLeaf.addr
  seq : entry.bundleEnvelope.seq = state.confirmedSeq entry.newLeaf.addr + 1
  /-- A known account has a head. -/
  known : ∀ leaf, state.accountLeaves.get? entry.newLeaf.addr = some leaf → leaf.headRef ≠ none
  headRef : ∃ headRef, entry.newLeaf.headRef = some headRef ∧
    headRef.bundleHash = computeBundleHash sidecar ∧ headRef.blockHash = block.blockHash

omit [Crypto H] [DecidableEq H] in
theorem checkSeq_eq_ok (state : ChainStateV2 H) (addr : Address) (seq : ℕ) (done : Unit) :
    checkSeq (state.accountLeaves.get? addr) seq = .ok done ↔
      seq = state.confirmedSeq addr + 1 ∧
        ∀ leaf, state.accountLeaves.get? addr = some leaf → leaf.headRef ≠ none := by
  unfold checkSeq confirmedSeq headRefOf
  cases found : state.accountLeaves.get? addr with
  | none => simp
  | some leaf => cases head_eq : leaf.headRef <;> simp [head_eq]

theorem checkEntry_eq_ok (state : ChainStateV2 H) (block : BlockV2 H) (seenSenders : List Address)
    (entry : DiffEntry H) (sidecar : BundleSidecar) (publicKey : Bytes) (senderAddr : Address) :
    state.checkEntry block seenSenders entry sidecar publicKey = .ok senderAddr ↔
      senderAddr = entry.newLeaf.addr ∧ entry.newLeaf.addr ∉ seenSenders ∧
        state.EntryAccepted block entry sidecar publicKey := by
  simp only [checkEntry, bind_eq_ok, require_eq_ok, exists_const, pure_eq_ok, demand_eq_ok,
    checkSeq_eq_ok]
  constructor
  · rintro ⟨signer, signer_eq, fresh, ⟨rfl, addr_eq⟩, ⟨bundle_eq, envelope_eq⟩, claims,
      leaf_claims, signed, alive, prev_eq, ⟨seq_eq, known⟩, headRef, head_eq,
      head_bundle, head_block, rfl⟩
    rw [addr_eq] at signer_eq fresh prev_eq seq_eq known
    exact ⟨addr_eq, fresh,
      { signer := signer_eq
        sender := addr_eq
        bundleHash := bundle_eq.symm
        envelopeHash := (bundle_eq.trans envelope_eq).symm
        claimSet := claims
        leafClaimSet := leaf_claims
        signature := signed
        notExpired := alive
        prevRef := prev_eq
        seq := seq_eq
        known := known
        headRef := ⟨headRef, head_eq, head_bundle.trans bundle_eq.symm, head_block⟩ }⟩
  · rintro ⟨rfl, fresh, accepted⟩
    obtain ⟨headRef, head_eq, head_bundle, head_block⟩ := accepted.headRef
    exact ⟨entry.newLeaf.addr, accepted.signer, fresh, ⟨accepted.sender.symm, rfl⟩,
      ⟨accepted.bundleHash.symm, accepted.bundleHash.trans accepted.envelopeHash.symm⟩,
      accepted.claimSet, accepted.leafClaimSet, accepted.signature, accepted.notExpired,
      accepted.prevRef, ⟨accepted.seq, accepted.known⟩, headRef, head_eq,
      head_bundle.trans accepted.bundleHash.symm, head_block, rfl⟩

/-- The entry loop accepts exactly lists of accepted entries with distinct senders, and stores
their leaves. -/
theorem checkEntries_eq_ok (state : ChainStateV2 H) (block : BlockV2 H)
    (items : List (DiffEntry H × BundleSidecar × Bytes)) (seenSenders : List Address)
    (tempTree tree : SparseMerkleTree H 256)
    (tempAccountLeaves leaves : OrderedDict Address (AccountLeaf H)) :
    state.checkEntries block items seenSenders tempTree tempAccountLeaves = .ok (tree, leaves) ↔
      (∀ item ∈ items, state.EntryAccepted block item.1 item.2.1 item.2.2) ∧
        (items.map fun item => item.1.newLeaf.addr).Nodup ∧
        (∀ item ∈ items, item.1.newLeaf.addr ∉ seenSenders) ∧
        tree = setLeaves tempTree (items.map Prod.fst) ∧
        leaves = setAccountLeaves tempAccountLeaves (items.map Prod.fst) := by
  induction items generalizing seenSenders tempTree tempAccountLeaves with
  | nil =>
      simp only [checkEntries, pure_eq_ok, Prod.mk.injEq, List.map_nil, setLeaves,
        setAccountLeaves, OrderedDict.setAll_nil, List.foldl_nil]
      simp [eq_comm]
  | cons item rest induction =>
      obtain ⟨entry, sidecar, publicKey⟩ := item
      simp only [checkEntries, bind_eq_ok, checkEntry_eq_ok, induction, List.forall_mem_cons,
        List.map_cons, List.nodup_cons]
      constructor
      · rintro ⟨_, ⟨rfl, fresh, accepted⟩, rest_accepted, nodup, rest_fresh, tree_eq, leaves_eq⟩
        refine ⟨⟨accepted, rest_accepted⟩, ⟨?_, nodup⟩,
          ⟨fresh, fun other member => List.not_mem_of_not_mem_cons (rest_fresh other member)⟩,
          tree_eq, leaves_eq⟩
        intro repeated
        obtain ⟨other, member, addr_eq⟩ := List.mem_map.mp repeated
        exact List.ne_of_not_mem_cons (rest_fresh other member) addr_eq
      · rintro ⟨⟨accepted, rest_accepted⟩, ⟨absent, nodup⟩, ⟨fresh, rest_fresh⟩, tree_eq,
          leaves_eq⟩
        refine ⟨_, ⟨rfl, fresh, accepted⟩, rest_accepted, nodup, ?_, tree_eq, leaves_eq⟩
        intro other member
        refine List.not_mem_cons_of_ne_of_not_mem (fun addr_eq => absent ?_)
          (rest_fresh other member)
        rw [← addr_eq]
        exact List.mem_map_of_mem (f := fun item => item.1.newLeaf.addr) member

/-- Everything `apply_block` checks about a block. -/
structure BlockAccepted (state : ChainStateV2 H) (block : BlockV2 H) : Prop where
  version : block.header.version = state.version
  chainId : block.header.chainId = state.chainId
  height : block.header.height = state.currentHeight + 1
  prevBlockHash : block.header.prevBlockHash = state.currentBlockHash
  sorted : block.diffPackage.diffEntries = sortEntries block.diffPackage.diffEntries
  keysNodup : (block.diffPackage.diffEntries.map DiffEntry.addrKey).Nodup
  keysLength : block.diffPackage.diffEntries.length = block.diffPackage.senderPublicKeys.length
  blockHash : deriveBlockHash block.header.version block.header.chainId block.header.height
    block.header.prevBlockHash block.header.timestamp block.header.proposerSig
    block.header.consensusExtra block.diffPackage.diffEntries = block.blockHash
  entries : ∀ item ∈ diffItems block, state.EntryAccepted block item.1 item.2.1 item.2.2
  sendersNodup : (block.diffPackage.diffEntries.map fun entry => entry.newLeaf.addr).Nodup
  diffRoot : computeDiffRoot block.diffPackage.diffEntries = block.header.diffRoot
  stateRoot :
    (setLeaves state.tree block.diffPackage.diffEntries).root = block.header.stateRoot

omit [Crypto H] [DecidableEq H] in
/-- The zipped loop runs over all entries when every entry has a public key. -/
theorem map_fst_diffItems {block : BlockV2 H}
    (keys_length :
      block.diffPackage.diffEntries.length = block.diffPackage.senderPublicKeys.length) :
    (diffItems block).map Prod.fst = block.diffPackage.diffEntries := by
  apply List.map_fst_zip
  have sidecars_length := block.diffPackage.sidecars_length
  rw [List.length_zip]
  omega

theorem checkBlock_eq_ok (state : ChainStateV2 H) (block : BlockV2 H)
    (tree : SparseMerkleTree H 256) (leaves : OrderedDict Address (AccountLeaf H)) :
    state.checkBlock block = .ok (tree, leaves) ↔
      state.BlockAccepted block ∧
        tree = setLeaves state.tree block.diffPackage.diffEntries ∧
        leaves = setAccountLeaves state.accountLeaves block.diffPackage.diffEntries := by
  simp only [checkBlock, bind_eq_ok, require_eq_ok, exists_const, pure_eq_ok, Prod.exists,
    checkEntries_eq_ok, Prod.mk.injEq]
  constructor
  · rintro ⟨⟨version_eq, chain_eq⟩, height_eq, prev_eq, sorted, keys_nodup, _, keys_length,
      hash_eq, _, _, ⟨accepted, nodup, _, rfl, rfl⟩, diff_eq, root_eq, rfl, rfl⟩
    have addrs_eq : (diffItems block).map (fun item => item.1.newLeaf.addr) =
        block.diffPackage.diffEntries.map fun entry => entry.newLeaf.addr := by
      rw [← map_fst_diffItems keys_length, List.map_map, Function.comp_def]
    rw [map_fst_diffItems keys_length] at root_eq ⊢
    exact ⟨⟨version_eq, chain_eq, height_eq, prev_eq, sorted, keys_nodup, keys_length, hash_eq,
      accepted, addrs_eq ▸ nodup, diff_eq, root_eq⟩, rfl, rfl⟩
  · rintro ⟨accepted, rfl, rfl⟩
    have entries_eq := map_fst_diffItems accepted.keysLength
    have addrs_eq : (diffItems block).map (fun item => item.1.newLeaf.addr) =
        block.diffPackage.diffEntries.map fun entry => entry.newLeaf.addr := by
      rw [← entries_eq, List.map_map, Function.comp_def]
    refine ⟨⟨accepted.version, accepted.chainId⟩, accepted.height, accepted.prevBlockHash,
      accepted.sorted, accepted.keysNodup, block.diffPackage.sidecars_length, accepted.keysLength,
      accepted.blockHash, _, _, ⟨accepted.entries, ?_, by simp, rfl, rfl⟩, accepted.diffRoot, ?_,
        ?_, ?_⟩
    · rw [addrs_eq]
      exact accepted.sendersNodup
    · rw [entries_eq]
      exact accepted.stateRoot
    · rw [entries_eq]
    · rw [entries_eq]

/-! ## The tree of an accepted block -/

omit [Crypto H] [DecidableEq H] in
theorem keyInt_bytes_injective : Function.Injective fun key : Bytes32 => keyInt key.bytes := by
  intro left right equality
  have key_eq : left.treeKey = right.treeKey := TreeKey.keyInt_injective equality
  cases left
  cases right
  simpa [Bytes32.treeKey] using key_eq

/-- Values written to the tree by some entries. -/
def leafItems (entries : List (DiffEntry H)) : List (ℕ × H) :=
  entries.map fun entry => (keyInt entry.addrKey.bytes, hashAccountLeaf entry.newLeaf)

omit [DecidableEq H] in
theorem values_setLeaves (tree : SparseMerkleTree H 256) (entries : List (DiffEntry H)) :
    (setLeaves tree entries).values = tree.values.setAll (leafItems entries) := by
  induction entries generalizing tree with
  | nil => rfl
  | cons entry entries induction => exact induction _

omit [DecidableEq H] in
theorem nodup_leafItems {entries : List (DiffEntry H)}
    (keys_nodup : (entries.map DiffEntry.addrKey).Nodup) :
    ((leafItems entries).map Prod.fst).Nodup := by
  have ints_nodup := keys_nodup.map keyInt_bytes_injective
  simpa only [leafItems, List.map_map, Function.comp_def] using ints_nodup

omit [DecidableEq H] in
/-- Every entry's leaf hash is stored under its key. -/
theorem get_setLeaves (tree : SparseMerkleTree H 256) {entries : List (DiffEntry H)}
    (keys_nodup : (entries.map DiffEntry.addrKey).Nodup) {entry : DiffEntry H}
    (member : entry ∈ entries) :
    (setLeaves tree entries).get entry.addrKey.bytes = some (hashAccountLeaf entry.newLeaf) := by
  rw [SparseMerkleTree.get, values_setLeaves]
  apply OrderedDict.get?_setAll_of_mem _ (nodup_leafItems keys_nodup)
  exact List.mem_map_of_mem (f := fun entry : DiffEntry H =>
    (keyInt entry.addrKey.bytes, hashAccountLeaf entry.newLeaf)) member

omit [DecidableEq H] in
/-- Other keys keep their values. -/
theorem get_setLeaves_of_notMem (tree : SparseMerkleTree H 256) {entries : List (DiffEntry H)}
    {key : Bytes32} (absent : key ∉ entries.map DiffEntry.addrKey) :
    (setLeaves tree entries).get key.bytes = tree.get key.bytes := by
  rw [SparseMerkleTree.get, values_setLeaves, SparseMerkleTree.get]
  apply OrderedDict.get?_setAll_of_notMem
  intro written
  simp only [leafItems, List.map_map, Function.comp_def, List.mem_map] at written
  obtain ⟨entry, member, int_eq⟩ := written
  exact absent (keyInt_bytes_injective int_eq ▸ List.mem_map_of_mem member)

omit [Crypto H] [DecidableEq H] in
theorem get?_setAccountLeaves_of_mem (leaves : OrderedDict Address (AccountLeaf H))
    {entries : List (DiffEntry H)}
    (nodup : (entries.map fun entry => entry.newLeaf.addr).Nodup) {entry : DiffEntry H}
    (member : entry ∈ entries) :
    (setAccountLeaves leaves entries).get? entry.newLeaf.addr = some entry.newLeaf := by
  apply OrderedDict.get?_setAll_of_mem
  · simpa only [List.map_map, Function.comp_def] using nodup
  · exact List.mem_map_of_mem (f := fun entry : DiffEntry H =>
      (entry.newLeaf.addr, entry.newLeaf)) member

omit [Crypto H] [DecidableEq H] in
theorem get?_setAccountLeaves_of_notMem (leaves : OrderedDict Address (AccountLeaf H))
    {entries : List (DiffEntry H)} {addr : Address}
    (absent : addr ∉ entries.map fun entry => entry.newLeaf.addr) :
    (setAccountLeaves leaves entries).get? addr = leaves.get? addr := by
  apply OrderedDict.get?_setAll_of_notMem
  simpa only [List.map_map, Function.comp_def] using absent

/-! ## The receipts and the state of an accepted block -/

/-- Cache the receipts of some entries, in order. -/
def addReceipts (cache : ReceiptCache H) (entries : List (DiffEntry H))
    (receipt : DiffEntry H → Receipt H) : ReceiptCache H :=
  entries.foldl (fun cache entry => addReceipt cache entry.newLeaf (receipt entry)) cache

/-- Receipts of some entries by address. -/
def receiptDict (entries : List (DiffEntry H)) (receipt : DiffEntry H → Receipt H)
    (receipts : OrderedDict Address (Receipt H)) : OrderedDict Address (Receipt H) :=
  receipts.setAll (entries.map fun entry => (entry.newLeaf.addr, receipt entry))

theorem appliedReceipts_eq (state : ChainStateV2 H) (block : BlockV2 H)
    (tree : SparseMerkleTree H 256) (entries : List (DiffEntry H))
    (receipts : OrderedDict Address (Receipt H)) (cache : ReceiptCache H)
    (verified : ∀ entry ∈ entries, verifyProof block.header.stateRoot entry.addrKey.bytes
      (hashAccountLeaf entry.newLeaf) (tree.prove entry.addrKey.treeKey) 256 = true) :
    state.appliedReceipts block tree entries receipts cache =
      (.ok (receiptDict entries (state.appliedReceipt block tree) receipts),
        addReceipts cache entries (state.appliedReceipt block tree)) := by
  induction entries generalizing receipts cache with
  | nil => rfl
  | cons entry entries induction =>
      obtain ⟨entry_verified, rest_verified⟩ := List.forall_mem_cons.mp verified
      simp only [appliedReceipts, entry_verified, if_true, induction _ _ rest_verified]
      rfl

/-- Receipts of an accepted block. -/
def blockReceipts (state : ChainStateV2 H) (block : BlockV2 H) :
    OrderedDict Address (Receipt H) :=
  receiptDict block.diffPackage.diffEntries
    (state.appliedReceipt block (setLeaves state.tree block.diffPackage.diffEntries)) ∅

/-- The state after an accepted block. -/
def nextState (state : ChainStateV2 H) (block : BlockV2 H) : ChainStateV2 H :=
  let entries := block.diffPackage.diffEntries
  let tree := setLeaves state.tree entries
  { state with
    currentHeight := block.header.height
    currentBlockHash := block.blockHash
    tree := tree
    accountLeaves := setAccountLeaves state.accountLeaves entries
    blocks := state.blocks ++ [block]
    receiptCache := addReceipts
      (if entries = [] then state.receiptCache
        else state.receiptCache.addProofBatch block.header.height
          (proofBatch block.header.height block.blockHash block.header.stateRoot tree entries))
      entries (state.appliedReceipt block tree)
    bundlePool := entries.foldl (fun pool entry =>
      pool.removeFinalizedBundle entry.newLeaf.addr entry.bundleEnvelope.seq entry.bundleHash)
      state.bundlePool }

/-- The proofs that the receipt loop generates lead to the checked state root. -/
theorem BlockAccepted.verifyProof_prove {state : ChainStateV2 H} {block : BlockV2 H}
    (accepted : state.BlockAccepted block) {entry : DiffEntry H}
    (member : entry ∈ block.diffPackage.diffEntries) :
    verifyProof block.header.stateRoot entry.addrKey.bytes (hashAccountLeaf entry.newLeaf)
      ((setLeaves state.tree block.diffPackage.diffEntries).prove entry.addrKey.treeKey) 256 =
        true := by
  rw [← accepted.stateRoot]
  exact SparseMerkleTree.verifyProof_prove _ entry.addrKey.treeKey
    (get_setLeaves state.tree accepted.keysNodup member)

/-- An accepted block is applied, and its receipt proofs all verify. -/
theorem applyBlock_of_accepted {state : ChainStateV2 H} {block : BlockV2 H}
    (accepted : state.BlockAccepted block) :
    state.applyBlock block = (.ok (state.blockReceipts block), state.nextState block) := by
  have checked := (state.checkBlock_eq_ok block _ _).mpr ⟨accepted, rfl, rfl⟩
  have verified : ∀ entry ∈ block.diffPackage.diffEntries, _ :=
    fun _ member => accepted.verifyProof_prove member
  simp only [applyBlock, checked, appliedReceipts_eq _ _ _ _ _ _ verified]
  rfl

/-- A block that is not accepted raises an error and leaves the state as it was. -/
theorem applyBlock_of_not_accepted {state : ChainStateV2 H} {block : BlockV2 H}
    (rejected : ¬ state.BlockAccepted block) :
    ∃ message, state.applyBlock block = (.error message, state) := by
  cases checked : state.checkBlock block with
  | error message => exact ⟨message, by simp only [applyBlock, checked]⟩
  | ok result => exact absurd ((state.checkBlock_eq_ok block _ _).mp checked).1 rejected

/-- `apply_block` succeeds exactly on accepted blocks. -/
theorem applyBlock_eq_ok_iff (state next : ChainStateV2 H) (block : BlockV2 H)
    (receipts : OrderedDict Address (Receipt H)) :
    state.applyBlock block = (.ok receipts, next) ↔
      state.BlockAccepted block ∧ receipts = state.blockReceipts block ∧
        next = state.nextState block := by
  constructor
  · intro applied
    by_cases accepted : state.BlockAccepted block
    · rw [applyBlock_of_accepted accepted] at applied
      simp only [Prod.mk.injEq, Except.ok.injEq] at applied
      exact ⟨accepted, applied.1.symm, applied.2.symm⟩
    · obtain ⟨message, raised⟩ := applyBlock_of_not_accepted accepted
      rw [raised] at applied
      cases applied
  · rintro ⟨accepted, rfl, rfl⟩
    exact applyBlock_of_accepted accepted

/-- Applying a block is atomic: an error leaves the whole state as it was, and once the checks have
passed, every proof that the receipt loop generates verifies. -/
theorem applyBlock_atomic (state : ChainStateV2 H) (block : BlockV2 H) :
    (∀ message next, state.applyBlock block = (.error message, next) → next = state) ∧
      ∀ tempTree tempAccountLeaves,
        state.checkBlock block = .ok (tempTree, tempAccountLeaves) →
          ∀ entry ∈ block.diffPackage.diffEntries,
            verifyProof block.header.stateRoot entry.addrKey.bytes (hashAccountLeaf entry.newLeaf)
              (tempTree.prove entry.addrKey.treeKey) 256 = true := by
  constructor
  · intro message next raised
    by_cases accepted : state.BlockAccepted block
    · rw [applyBlock_of_accepted accepted] at raised
      cases raised
    · obtain ⟨_, rejected⟩ := applyBlock_of_not_accepted accepted
      exact (Prod.mk.inj (raised.symm.trans rejected)).2
  · intro tempTree tempAccountLeaves checked entry member
    obtain ⟨accepted, rfl, _⟩ := (state.checkBlock_eq_ok block _ _).mp checked
    exact accepted.verifyProof_prove member

omit [DecidableEq H] in
/-- Every diff entry of an accepted block passed the checks with some body and key. -/
theorem BlockAccepted.exists_entryAccepted {state : ChainStateV2 H} {block : BlockV2 H}
    (accepted : state.BlockAccepted block) {entry : DiffEntry H}
    (member : entry ∈ block.diffPackage.diffEntries) :
    ∃ sidecar publicKey, (entry, sidecar, publicKey) ∈ diffItems block ∧
      state.EntryAccepted block entry sidecar publicKey := by
  rw [← map_fst_diffItems accepted.keysLength] at member
  obtain ⟨⟨_, sidecar, publicKey⟩, item_member, rfl⟩ := List.mem_map.mp member
  exact ⟨sidecar, publicKey, item_member, accepted.entries _ item_member⟩

/-! ## Runs of accepted blocks -/

/-- Apply blocks one after the other, stopping at the first error. -/
def applyBlocks (state : ChainStateV2 H) : List (BlockV2 H) → Except String (ChainStateV2 H)
  | [] => .ok state
  | block :: blocks =>
      match state.applyBlock block with
      | (.error message, _) => .error message
      | (.ok _, next) => next.applyBlocks blocks

@[simp]
theorem applyBlocks_nil (state : ChainStateV2 H) : state.applyBlocks [] = .ok state := rfl

theorem applyBlocks_cons_eq_ok (state final : ChainStateV2 H) (block : BlockV2 H)
    (blocks : List (BlockV2 H)) :
    state.applyBlocks (block :: blocks) = .ok final ↔
      state.BlockAccepted block ∧ (state.nextState block).applyBlocks blocks = .ok final := by
  by_cases accepted : state.BlockAccepted block
  · simp [applyBlocks, applyBlock_of_accepted accepted, accepted]
  · obtain ⟨message, raised⟩ := applyBlock_of_not_accepted accepted
    simp [applyBlocks, raised, accepted]

theorem applyBlocks_append_eq_ok (state final : ChainStateV2 H) (left right : List (BlockV2 H)) :
    state.applyBlocks (left ++ right) = .ok final ↔
      ∃ middle, state.applyBlocks left = .ok middle ∧ middle.applyBlocks right = .ok final := by
  induction left generalizing state with
  | nil => simp [applyBlocks]
  | cons block left induction =>
      simp only [List.cons_append, applyBlocks_cons_eq_ok, induction, and_assoc,
        exists_and_left]

theorem applyBlocks_concat_eq_ok (state final : ChainStateV2 H) (blocks : List (BlockV2 H))
    (block : BlockV2 H) :
    state.applyBlocks (blocks ++ [block]) = .ok final ↔
      ∃ middle, state.applyBlocks blocks = .ok middle ∧ middle.BlockAccepted block ∧
        final = middle.nextState block := by
  simp only [applyBlocks_append_eq_ok, applyBlocks_cons_eq_ok, applyBlocks_nil, Except.ok.injEq,
    eq_comm (a := final)]

/-- A property that holds initially and is kept by every accepted block of a run holds in the
final state. -/
theorem applyBlocks_induction {initial : ChainStateV2 H}
    {motive : List (BlockV2 H) → ChainStateV2 H → Prop} (init : motive [] initial)
    (step : ∀ blocks state block, initial.applyBlocks blocks = .ok state → motive blocks state →
      state.BlockAccepted block → motive (blocks ++ [block]) (state.nextState block))
    {blocks : List (BlockV2 H)} {final : ChainStateV2 H}
    (applied : initial.applyBlocks blocks = .ok final) : motive blocks final := by
  induction blocks using List.reverseRecOn generalizing final with
  | nil =>
      rw [applyBlocks_nil, Except.ok.injEq] at applied
      exact applied ▸ init
  | append_singleton blocks block induction =>
      obtain ⟨state, earlier, accepted, rfl⟩ :=
        (applyBlocks_concat_eq_ok initial final blocks block).mp applied
      exact step blocks state block earlier (induction earlier) accepted

end ChainStateV2

end EZChain
