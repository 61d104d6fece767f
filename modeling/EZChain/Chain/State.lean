import EZChain.Chain.BundlePool

/-!
# Chain state

The state of a consensus host: the account leaves, the state tree over them, the applied blocks,
the receipt cache and the bundle pool.  A host extends its chain by executing pending bundles
or by checking and applying a block received from a peer.
-/

namespace EZChain

open Checks

/-- `ChainStateV2`. -/
structure ChainStateV2 (H : Type) where
  version : ℕ
  chainId : ℕ
  /-- Height of the last block, or 0. -/
  currentHeight : ℕ
  /-- Hash of the last block, or of the genesis block. -/
  currentBlockHash : H
  /-- The tree of the account leaves. -/
  tree : SparseMerkleTree H 256
  /-- The leaf of each known account. -/
  accountLeaves : OrderedDict Address (AccountLeaf H)
  /-- The applied blocks, the oldest first. -/
  blocks : List (BlockV2 H)
  /-- The receipts of the last blocks. -/
  receiptCache : ReceiptCache H
  /-- The bundles that wait for a block. -/
  bundlePool : BundlePool H

namespace ChainStateV2

variable {H : Type}

/-- `ChainStateV2(...)`: the state before the first block. -/
def new (version chainId receiptCacheBlocks maxBundleBytes maxTxPerBundle
    maxValueEntriesPerTx : ℕ) (genesisBlockHash : H) : ChainStateV2 H where
  version := version
  chainId := chainId
  currentHeight := 0
  currentBlockHash := genesisBlockHash
  tree := SparseMerkleTree.empty (by decide)
  accountLeaves := ∅
  blocks := []
  receiptCache := ReceiptCache.new H receiptCacheBlocks
  bundlePool := BundlePool.new H chainId maxBundleBytes maxTxPerBundle maxValueEntriesPerTx

/-- `copy`: the ledger of the state with an empty history and a default pool. -/
def copy (state : ChainStateV2 H) : ChainStateV2 H :=
  { new state.version state.chainId state.receiptCache.maxBlocks 32768 128 64
      state.currentBlockHash with
    currentHeight := state.currentHeight
    tree := state.tree
    accountLeaves := state.accountLeaves }

/-- The head reference of an account that is known and has one. -/
def headRefOf (state : ChainStateV2 H) (addr : Address) : Option (BundleRef H) :=
  (state.accountLeaves.get? addr).bind AccountLeaf.headRef

/-- `confirmed_seq`. -/
def confirmedSeq (state : ChainStateV2 H) (senderAddr : Address) : ℕ :=
  match state.headRefOf senderAddr with
  | none => 0
  | some headRef => headRef.seq

variable [Crypto H] [DecidableEq H]

/-- `submit_bundle`. -/
def submitBundle (state : ChainStateV2 H) (submission : BundleSubmission H) :
    Except String (ChainStateV2 H) := do
  let senderAddr ← Crypto.addressFromPublicKeyPem H submission.senderPublicKeyPem
  let pool ← state.bundlePool.submit submission state.currentHeight (state.confirmedSeq senderAddr)
  pure { state with bundlePool := pool }

/-! ## Building a block -/

/-- The diff entry that confirms one submission at a height, under a block hash. -/
def prepareEntry (state : ChainStateV2 H) (height : ℕ) (blockHash : H)
    (submission : BundleSubmission H) : DiffEntry H where
  addrKey := computeAddrKey H submission.sidecar.senderAddr
  newLeaf :=
    { addr := submission.sidecar.senderAddr
      headRef := some
        { height := height
          blockHash := blockHash
          bundleHash := submission.envelope.bundleHash
          seq := submission.envelope.seq
          seq_pos := submission.envelope.seq_pos }
      prevRef := state.headRefOf submission.sidecar.senderAddr
      claimSetHash := submission.envelope.claimSetHash }
  bundleEnvelope := submission.envelope
  bundleHash := submission.envelope.bundleHash

/-- `_prepare_entries`: the entries, and the previous reference of each sender. -/
def prepareEntries (state : ChainStateV2 H) (submissions : List (BundleSubmission H))
    (height : ℕ) (blockHash : H) :
    List (DiffEntry H) × OrderedDict Address (Option (BundleRef H)) :=
  (submissions.map (state.prepareEntry height blockHash),
    OrderedDict.setAll ∅ (submissions.map fun submission =>
      (submission.sidecar.senderAddr, state.headRefOf submission.sidecar.senderAddr)))

/-- Entries ordered by their tree keys. -/
def sortEntries (entries : List (DiffEntry H)) : List (DiffEntry H) :=
  entries.insertionSort fun left right => keyLe left.addrKey right.addrKey

/-- Submissions ordered by the tree keys of their senders. -/
def sortSubmissions (submissions : List (BundleSubmission H)) : List (BundleSubmission H) :=
  submissions.insertionSort fun left right =>
    keyLe (computeAddrKey H left.sidecar.senderAddr) (computeAddrKey H right.sidecar.senderAddr)

/-- Store the leaves of some entries in the state tree. -/
def setLeaves (tree : SparseMerkleTree H 256) (entries : List (DiffEntry H)) :
    SparseMerkleTree H 256 :=
  entries.foldl
    (fun tree entry => tree.set entry.addrKey.treeKey (hashAccountLeaf entry.newLeaf)) tree

/-- Store the leaves of some entries under their addresses. -/
def setAccountLeaves (leaves : OrderedDict Address (AccountLeaf H)) (entries : List (DiffEntry H)) :
    OrderedDict Address (AccountLeaf H) :=
  leaves.setAll (entries.map fun entry => (entry.newLeaf.addr, entry.newLeaf))

/-- Store a receipt under the head reference of its leaf.  The source reads the reference of a
leaf that has one. -/
def addReceipt (cache : ReceiptCache H) (leaf : AccountLeaf H) (receipt : Receipt H) :
    ReceiptCache H :=
  match leaf.headRef with
  | none => cache
  | some headRef => cache.add leaf.addr receipt headRef

/-- The proofs of all entries of a block as one batch. -/
def proofBatch (height : ℕ) (blockHash stateRoot : H) (tree : SparseMerkleTree H 256)
    (entries : List (DiffEntry H)) : ReceiptProofBatch H where
  batchId := ⟨height, blockHash⟩
  stateRoot := stateRoot
  multiProof := buildMultiproof tree (entries.map fun entry => entry.addrKey.treeKey)

/-- Receipt of one executed entry. -/
def executedReceipt (height : ℕ) (blockHash stateRoot : H) (tree : SparseMerkleTree H 256)
    (prevRefs : OrderedDict Address (Option (BundleRef H))) (entry : DiffEntry H) : Receipt H where
  headerLite := ⟨height, blockHash, stateRoot⟩
  seq := entry.bundleEnvelope.seq
  prevRef := (prevRefs.get? entry.newLeaf.addr).join
  claimSetHash := entry.newLeaf.claimSetHash
  proof := .single (tree.prove entry.addrKey.treeKey)
  seq_pos := entry.seq_pos

/-- The receipt loop of a built block. -/
def executedReceipts (height : ℕ) (blockHash stateRoot : H) (tree : SparseMerkleTree H 256)
    (prevRefs : OrderedDict Address (Option (BundleRef H))) :
    List (DiffEntry H) → OrderedDict Address (Receipt H) → ReceiptCache H →
      OrderedDict Address (Receipt H) × ReceiptCache H
  | [], receipts, cache => (receipts, cache)
  | entry :: entries, receipts, cache =>
      let receipt := executedReceipt height blockHash stateRoot tree prevRefs entry
      executedReceipts height blockHash stateRoot tree prevRefs entries
        (receipts.set entry.newLeaf.addr receipt) (addReceipt cache entry.newLeaf receipt)

/-- The block that `_execute_submissions` assembles. -/
def executedBlock (state : ChainStateV2 H) (submissions : List (BundleSubmission H))
    (timestamp : ℕ) (proposerSig consensusExtra : Bytes) : BlockV2 H :=
  let height := state.currentHeight + 1
  let provisionalEntries :=
    sortEntries (state.prepareEntries submissions height Crypto.zeroHash32).1
  let blockHash := deriveBlockHash state.version state.chainId height state.currentBlockHash
    timestamp proposerSig consensusExtra provisionalEntries
  let entries := sortEntries (state.prepareEntries (sortSubmissions submissions) height blockHash).1
  { blockHash := blockHash
    header :=
      { version := state.version
        chainId := state.chainId
        height := height
        prevBlockHash := state.currentBlockHash
        stateRoot := (setLeaves state.tree entries).root
        diffRoot := computeDiffRoot entries
        timestamp := timestamp
        proposerSig := proposerSig
        consensusExtra := consensusExtra }
    diffPackage :=
      { diffEntries := entries
        sidecars := (sortSubmissions submissions).map BundleSubmission.sidecar
        senderPublicKeys := (sortSubmissions submissions).map BundleSubmission.senderPublicKeyPem
        sidecars_length := by
          simp [entries, sortEntries, sortSubmissions, prepareEntries]
        keys_length := by
          simp [entries, sortEntries, sortSubmissions, prepareEntries] } }

/-- `_execute_submissions`: the block, its receipts and the next state. -/
def executeSubmissions (state : ChainStateV2 H) (submissions : List (BundleSubmission H))
    (timestamp : ℕ) (proposerSig consensusExtra : Bytes) (removeFromPool : Bool) :
    (BlockV2 H × OrderedDict Address (Receipt H)) × ChainStateV2 H :=
  let block := state.executedBlock submissions timestamp proposerSig consensusExtra
  let height := block.header.height
  let entries := block.diffPackage.diffEntries
  let prevRefs := (state.prepareEntries (sortSubmissions submissions) height block.blockHash).2
  let tempTree := setLeaves state.tree entries
  let stateRoot := block.header.stateRoot
  let cache :=
    if entries = [] then state.receiptCache
    else state.receiptCache.addProofBatch height
      (proofBatch height block.blockHash stateRoot tempTree entries)
  let executed :=
    executedReceipts height block.blockHash stateRoot tempTree prevRefs entries ∅ cache
  ((block, executed.1),
    { state with
      currentHeight := height
      currentBlockHash := block.blockHash
      tree := tempTree
      accountLeaves := setAccountLeaves state.accountLeaves entries
      blocks := state.blocks ++ [block]
      receiptCache := executed.2
      bundlePool :=
        if removeFromPool then
          submissions.foldl (fun pool submission =>
            pool.removeFinalizedBundle submission.sidecar.senderAddr submission.envelope.seq
              submission.envelope.bundleHash) state.bundlePool
        else state.bundlePool })

/-- `build_block`. -/
def buildBlock (state : ChainStateV2 H) (timestamp : ℕ) (proposerSig consensusExtra : Bytes)
    (limit : Option ℤ) : (BlockV2 H × OrderedDict Address (Receipt H)) × ChainStateV2 H :=
  state.executeSubmissions (state.bundlePool.snapshot limit) timestamp proposerSig consensusExtra
    true

/-- `preview_block`: build on a copy of the state. -/
def previewBlock (state : ChainStateV2 H) (timestamp : ℕ) (proposerSig consensusExtra : Bytes)
    (limit : Option ℤ) : BlockV2 H × OrderedDict Address (Receipt H) :=
  let preview := { state.copy with
    bundlePool :=
      { state.copy.bundlePool with pendingBySender := state.bundlePool.pendingBySender } }
  (preview.buildBlock timestamp proposerSig consensusExtra limit).1

/-! ## Applying a block -/

/-- The sequence rule: start at 1, then follow the head of the old leaf. -/
def checkSeq (oldLeaf : Option (AccountLeaf H)) (seq : ℕ) : Except String Unit :=
  match oldLeaf with
  | none => require (seq = 1) "first bundle seq must be 1"
  | some oldLeaf => do
      let oldHead ← demand oldLeaf.headRef "'NoneType' object has no attribute 'seq'"
      require (seq = oldHead.seq + 1) "bundle seq discontinuity"

/-- The checks of one diff entry against the state before the block. -/
def checkEntry (state : ChainStateV2 H) (block : BlockV2 H) (seenSenders : List Address)
    (entry : DiffEntry H) (sidecar : BundleSidecar) (publicKey : Bytes) :
    Except String Address := do
  let senderAddr ← Crypto.addressFromPublicKeyPem H publicKey
  require (senderAddr ∉ seenSenders) "duplicate sender in block"
  require (senderAddr = sidecar.senderAddr ∧ senderAddr = entry.newLeaf.addr)
    "sender/public key mismatch"
  require (computeBundleHash sidecar = entry.bundleHash ∧
    entry.bundleHash = entry.bundleEnvelope.bundleHash) "bundle hash mismatch"
  let computedClaimSetHash := claimRangeSetHash (claimRangeSetFromSidecar sidecar)
  require (entry.bundleEnvelope.claimSetHash = none ∨
    entry.bundleEnvelope.claimSetHash = some computedClaimSetHash) "claim_set_hash mismatch"
  require (entry.newLeaf.claimSetHash = entry.bundleEnvelope.claimSetHash)
    "new leaf claim_set_hash mismatch"
  require (verifyBundleEnvelope entry.bundleEnvelope publicKey = true) "bundle signature invalid"
  require (block.header.height ≤ entry.bundleEnvelope.expiryHeight) "bundle expired"
  require (entry.newLeaf.prevRef = state.headRefOf senderAddr) "new leaf prev_ref mismatch"
  checkSeq (state.accountLeaves.get? senderAddr) entry.bundleEnvelope.seq
  let headRef ← demand entry.newLeaf.headRef "'NoneType' object has no attribute 'bundle_hash'"
  require (headRef.bundleHash = entry.bundleHash) "new leaf head_ref bundle hash mismatch"
  require (headRef.blockHash = block.blockHash) "new leaf head_ref block hash mismatch"
  pure senderAddr

/-- The loop over the diff entries, their sidecars and their public keys. -/
def checkEntries (state : ChainStateV2 H) (block : BlockV2 H) :
    List (DiffEntry H × BundleSidecar × Bytes) → List Address → SparseMerkleTree H 256 →
      OrderedDict Address (AccountLeaf H) →
      Except String (SparseMerkleTree H 256 × OrderedDict Address (AccountLeaf H))
  | [], _, tempTree, tempAccountLeaves => pure (tempTree, tempAccountLeaves)
  | (entry, sidecar, publicKey) :: rest, seenSenders, tempTree, tempAccountLeaves => do
      let senderAddr ← state.checkEntry block seenSenders entry sidecar publicKey
      checkEntries state block rest (senderAddr :: seenSenders)
        (tempTree.set entry.addrKey.treeKey (hashAccountLeaf entry.newLeaf))
        (tempAccountLeaves.set senderAddr entry.newLeaf)

/-- The diff entries of a block with their sidecars and public keys. -/
def diffItems (block : BlockV2 H) : List (DiffEntry H × BundleSidecar × Bytes) :=
  block.diffPackage.diffEntries.zip
    (block.diffPackage.sidecars.zip block.diffPackage.senderPublicKeys)

/-- The checks of `apply_block` and the tree and leaves it computes. -/
def checkBlock (state : ChainStateV2 H) (block : BlockV2 H) :
    Except String (SparseMerkleTree H 256 × OrderedDict Address (AccountLeaf H)) := do
  require (block.header.version = state.version ∧ block.header.chainId = state.chainId)
    "block version/chain mismatch"
  require (block.header.height = state.currentHeight + 1) "unexpected block height"
  require (block.header.prevBlockHash = state.currentBlockHash) "prev_block_hash mismatch"
  let entries := block.diffPackage.diffEntries
  require (entries = sortEntries entries) "diff entries not sorted"
  require (entries.map DiffEntry.addrKey).Nodup "duplicate addr_key in diff package"
  require (entries.length = block.diffPackage.sidecars.length)
    "diff package sidecars length mismatch"
  require (entries.length = block.diffPackage.senderPublicKeys.length)
    "missing sender public keys for validation"
  let expectedBlockHash := deriveBlockHash block.header.version block.header.chainId
    block.header.height block.header.prevBlockHash block.header.timestamp block.header.proposerSig
    block.header.consensusExtra entries
  require (expectedBlockHash = block.blockHash) "block hash mismatch"
  let (tempTree, tempAccountLeaves) ←
    state.checkEntries block (diffItems block) [] state.tree state.accountLeaves
  require (computeDiffRoot entries = block.header.diffRoot) "diff_root mismatch"
  require (tempTree.root = block.header.stateRoot) "state_root mismatch"
  pure (tempTree, tempAccountLeaves)

/-- Receipt of one applied entry. -/
def appliedReceipt (state : ChainStateV2 H) (block : BlockV2 H) (tree : SparseMerkleTree H 256)
    (entry : DiffEntry H) : Receipt H where
  headerLite := ⟨block.header.height, block.blockHash, block.header.stateRoot⟩
  seq := entry.bundleEnvelope.seq
  prevRef := state.headRefOf entry.newLeaf.addr
  claimSetHash := entry.newLeaf.claimSetHash
  proof := .single (tree.prove entry.addrKey.treeKey)
  seq_pos := entry.seq_pos

/-- The receipt loop of an applied block; receipts cached before an error stay cached. -/
def appliedReceipts (state : ChainStateV2 H) (block : BlockV2 H) (tree : SparseMerkleTree H 256) :
    List (DiffEntry H) → OrderedDict Address (Receipt H) → ReceiptCache H →
      Except String (OrderedDict Address (Receipt H)) × ReceiptCache H
  | [], receipts, cache => (.ok receipts, cache)
  | entry :: entries, receipts, cache =>
      let proof := tree.prove entry.addrKey.treeKey
      if verifyProof block.header.stateRoot entry.addrKey.bytes (hashAccountLeaf entry.newLeaf)
          proof 256 then
        let receipt := state.appliedReceipt block tree entry
        appliedReceipts state block tree entries (receipts.set entry.newLeaf.addr receipt)
          (addReceipt cache entry.newLeaf receipt)
      else (.error "generated receipt proof does not verify", cache)

/-- `apply_block`: the receipts or an error, and the state afterwards. -/
def applyBlock (state : ChainStateV2 H) (block : BlockV2 H) :
    Except String (OrderedDict Address (Receipt H)) × ChainStateV2 H :=
  match state.checkBlock block with
  | .error message => (.error message, state)
  | .ok (tempTree, tempAccountLeaves) =>
      let entries := block.diffPackage.diffEntries
      let cache :=
        if entries = [] then state.receiptCache
        else state.receiptCache.addProofBatch block.header.height
          (proofBatch block.header.height block.blockHash block.header.stateRoot tempTree entries)
      match state.appliedReceipts block tempTree entries ∅ cache with
      | (.error message, cache) => (.error message, { state with receiptCache := cache })
      | (.ok receipts, cache) =>
          (.ok receipts,
            { state with
              currentHeight := block.header.height
              currentBlockHash := block.blockHash
              tree := tempTree
              accountLeaves := tempAccountLeaves
              blocks := state.blocks ++ [block]
              receiptCache := cache
              bundlePool := entries.foldl (fun pool entry =>
                pool.removeFinalizedBundle entry.newLeaf.addr entry.bundleEnvelope.seq
                  entry.bundleHash) state.bundlePool })

end ChainStateV2

end EZChain
