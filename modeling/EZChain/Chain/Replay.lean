import EZChain.Chain.Store

/-!
# Replaying built blocks

The pool is read by building alone.  States that differ in their pools accept the same blocks and
stay equal up to their pools, so a replica follows a builder whose packed bundles have not
expired, and a saved chain is restored from its blocks.
-/

namespace EZChain

open Checks

namespace ChainStateV2

variable {H : Type}

/-- States that differ in their pools at most. -/
def SameLedger (left right : ChainStateV2 H) : Prop :=
  ∃ pool, left = { right with bundlePool := pool }

namespace SameLedger

variable {left right : ChainStateV2 H}

theorem refl (state : ChainStateV2 H) : state.SameLedger state := ⟨state.bundlePool, rfl⟩

theorem symm (same : left.SameLedger right) : right.SameLedger left := by
  obtain ⟨pool, rfl⟩ := same
  exact ⟨right.bundlePool, rfl⟩

theorem trans {middle : ChainStateV2 H} (first : left.SameLedger middle)
    (second : middle.SameLedger right) : left.SameLedger right := by
  obtain ⟨pool, rfl⟩ := first
  obtain ⟨_, rfl⟩ := second
  exact ⟨pool, rfl⟩

theorem currentHeight (same : left.SameLedger right) :
    left.currentHeight = right.currentHeight := by
  obtain ⟨pool, rfl⟩ := same
  rfl

variable [Crypto H]

theorem entryAccepted (same : left.SameLedger right) {block : BlockV2 H} {entry : DiffEntry H}
    {sidecar : BundleSidecar} {publicKey : Bytes}
    (accepted : right.EntryAccepted block entry sidecar publicKey) :
    left.EntryAccepted block entry sidecar publicKey := by
  obtain ⟨pool, rfl⟩ := same
  exact
    { signer := accepted.signer
      sender := accepted.sender
      bundleHash := accepted.bundleHash
      envelopeHash := accepted.envelopeHash
      claimSet := accepted.claimSet
      leafClaimSet := accepted.leafClaimSet
      signature := accepted.signature
      notExpired := accepted.notExpired
      prevRef := accepted.prevRef
      seq := accepted.seq
      known := accepted.known
      headRef := accepted.headRef }

theorem blockAccepted (same : left.SameLedger right) {block : BlockV2 H}
    (accepted : right.BlockAccepted block) : left.BlockAccepted block := by
  have entries := fun item member => same.entryAccepted (accepted.entries item member)
  obtain ⟨pool, rfl⟩ := same
  exact
    { version := accepted.version
      chainId := accepted.chainId
      height := accepted.height
      prevBlockHash := accepted.prevBlockHash
      sorted := accepted.sorted
      keysNodup := accepted.keysNodup
      keysLength := accepted.keysLength
      blockHash := accepted.blockHash
      entries := entries
      sendersNodup := accepted.sendersNodup
      diffRoot := accepted.diffRoot
      stateRoot := accepted.stateRoot }

theorem blockReceipts (same : left.SameLedger right) (block : BlockV2 H) :
    left.blockReceipts block = right.blockReceipts block := by
  obtain ⟨pool, rfl⟩ := same
  rfl

variable [DecidableEq H]

theorem nextState (same : left.SameLedger right) (block : BlockV2 H) :
    (left.nextState block).SameLedger (right.nextState block) := by
  obtain ⟨pool, rfl⟩ := same
  exact ⟨_, rfl⟩

/-- A replica applies an accepted block with the same receipts and keeps the same ledger. -/
theorem applyBlock (same : left.SameLedger right) {block : BlockV2 H}
    (accepted : right.BlockAccepted block) :
    ∃ next, left.applyBlock block = (.ok (right.blockReceipts block), next) ∧
      next.SameLedger (right.nextState block) := by
  refine ⟨left.nextState block, ?_, same.nextState block⟩
  rw [applyBlock_of_accepted (same.blockAccepted accepted), same.blockReceipts]

end SameLedger

/-! ## Built blocks -/

theorem run_singleton_submitBundle [Crypto H] [DecidableEq H] {state next : ChainStateV2 H}
    {submission : BundleSubmission H} (submitted : state.submitBundle submission = .ok next) :
    state.run [.submitBundle submission] = next := by
  simp only [run, List.foldl_cons, List.foldl_nil, ChainStateV2.step, submitted]

/-- Submitting a bundle changes the pool alone. -/
theorem sameLedger_submitBundle [Crypto H] [DecidableEq H] {state next : ChainStateV2 H}
    {submission : BundleSubmission H} (submitted : state.submitBundle submission = .ok next) :
    next.SameLedger state := by
  simp only [submitBundle, bind_eq_ok, pure_eq_ok] at submitted
  obtain ⟨_, _, pool, _, rfl⟩ := submitted
  exact ⟨pool, rfl⟩

variable [Crypto H] [DecidableEq H]

section Built

variable {state : ChainStateV2 H} {limit : Option ℤ}

omit [DecidableEq H] in
/-- A built block is accepted before it when its bundles have not expired. -/
theorem WellFormed.builtBlock_accepted (ideal : IdealAddrKeys H) (wellFormed : state.WellFormed)
    (alive : ConsensusNode.PackedAlive state limit) (timestamp : ℕ)
    (proposerSig consensusExtra : Bytes) :
    state.BlockAccepted (state.builtBlock timestamp proposerSig consensusExtra limit) :=
  executedBlock_accepted ideal (wellFormed.snapshot_ready limit) wellFormed.leavesHaveHeads alive
    timestamp proposerSig consensusExtra

/-- Building returns the receipts of the applied block and leaves its ledger. -/
theorem buildBlock_eq (state : ChainStateV2 H) (timestamp : ℕ) (proposerSig consensusExtra : Bytes)
    (limit : Option ℤ) :
    let block := state.builtBlock timestamp proposerSig consensusExtra limit
    (state.buildBlock timestamp proposerSig consensusExtra limit).1 =
        (block, state.blockReceipts block) ∧
      (state.buildBlock timestamp proposerSig consensusExtra limit).2.SameLedger
        (state.nextState block) := by
  rw [ChainStateV2.buildBlock, executeSubmissions_eq]
  exact ⟨rfl, _, rfl⟩

theorem WellFormed.replica_applies (ideal : IdealAddrKeys H) (wellFormed : state.WellFormed)
    (alive : ConsensusNode.PackedAlive state limit) (timestamp : ℕ)
    (proposerSig consensusExtra : Bytes) {replica : ChainStateV2 H}
    (same : replica.SameLedger state) :
    let built := state.buildBlock timestamp proposerSig consensusExtra limit
    ∃ next, replica.applyBlock built.1.1 = (.ok built.1.2, next) ∧ next.SameLedger built.2 := by
  obtain ⟨built_eq, ledger⟩ := state.buildBlock_eq timestamp proposerSig consensusExtra limit
  have accepted := wellFormed.builtBlock_accepted ideal alive timestamp proposerSig consensusExtra
  obtain ⟨next, applied, next_ledger⟩ := same.applyBlock accepted
  refine ⟨next, ?_, next_ledger.trans ledger.symm⟩
  rw [built_eq]
  exact applied

end Built

/-! ## What replaying keeps -/

section Replay

omit [Crypto H] in
theorem maxBlocks_addReceipts (cache : ReceiptCache H) (entries : List (DiffEntry H))
    (receipt : DiffEntry H → Receipt H) :
    (addReceipts cache entries receipt).maxBlocks = cache.maxBlocks := by
  induction entries generalizing cache with
  | nil => rfl
  | cons entry entries induction =>
      rw [addReceipts, List.foldl_cons, ← addReceipts, induction, addReceipt]
      split
      · rfl
      · exact cache.maxBlocks_add _ _ _

theorem maxBlocks_nextState (state : ChainStateV2 H) (block : BlockV2 H) :
    (state.nextState block).receiptCache.maxBlocks = state.receiptCache.maxBlocks := by
  rw [ChainStateV2.nextState, maxBlocks_addReceipts]
  split
  · rfl
  · exact state.receiptCache.maxBlocks_addProofBatch _ _

theorem WellFormed.applyBlocks {initial final : ChainStateV2 H} (wellFormed : initial.WellFormed)
    {blocks : List (BlockV2 H)} (applied : initial.applyBlocks blocks = .ok final) :
    final.WellFormed := by
  refine applyBlocks_induction (motive := fun _ state => state.WellFormed) wellFormed ?_ applied
  intro _ state block _ induction accepted
  exact induction.nextState accepted

end Replay

end ChainStateV2

/-! ## Saved chains -/

namespace ConsensusNode

variable {H : Type} [Crypto H] [DecidableEq H]

/-- The chain that an empty store is replayed on. -/
abbrev initialChain (chainId receiptCacheBlocks : ℕ) (genesisBlockHash : H) : ChainStateV2 H :=
  .new 2 chainId receiptCacheBlocks 32768 128 64 genesisBlockHash

/-- The metadata row that belongs to a chain. -/
def metadataOf (chain : ChainStateV2 H) (genesisBlockHash : H) : ConsensusStateMetadata H where
  version := chain.version
  chainId := chain.chainId
  receiptCacheBlocks := chain.receiptCache.maxBlocks
  genesisBlockHash := genesisBlockHash
  currentHeight := chain.currentHeight
  currentBlockHash := chain.currentBlockHash
  currentStateRoot := chain.tree.root

/-- The store of a node describes its chain. -/
structure StoreSound (chainId receiptCacheBlocks : ℕ) (genesisBlockHash : H)
    (node : ConsensusNode H) : Prop where
  wellFormed : node.chain.WellFormed
  hasVersion : node.chain.version = 2
  hasChainId : node.chain.chainId = chainId
  maxBlocks : node.chain.receiptCache.maxBlocks = max 1 receiptCacheBlocks
  genesis : node.genesisBlockHash = genesisBlockHash
  /-- One block is stored for every height up to the current one. -/
  heights : node.store.blocks.keys = List.range' 1 node.chain.currentHeight
  /-- The stored blocks lead to the chain. -/
  replay : ∃ replica, (initialChain chainId receiptCacheBlocks genesisBlockHash).applyBlocks
    node.store.blocks.values = .ok replica ∧ replica.SameLedger node.chain
  /-- The metadata row is absent until the first block. -/
  metadata : node.store = .empty H ∨
    node.store.metadata = some (metadataOf node.chain genesisBlockHash)

variable {chainId receiptCacheBlocks : ℕ} {genesisBlockHash : H} {node : ConsensusNode H}

theorem storeSound_new (chainId receiptCacheBlocks : ℕ) (genesisBlockHash : H) :
    StoreSound chainId receiptCacheBlocks genesisBlockHash
      (new chainId receiptCacheBlocks genesisBlockHash) where
  wellFormed := ChainStateV2.wellFormed_new _ _ _ _ _ _ _
  hasVersion := rfl
  hasChainId := rfl
  maxBlocks := rfl
  genesis := rfl
  heights := rfl
  replay := ⟨_, rfl, .refl _⟩
  metadata := .inl rfl

omit [Crypto H] in
theorem save_eq_ok {store : ConsensusStateStore H} {chain : ChainStateV2 H} {block : BlockV2 H}
    {receipts : OrderedDict Address (Receipt H)}
    (saved : node.save chain block receipts = .ok store) :
    block.header.height ∉ node.store.blocks.keys ∧
      store.blocks = node.store.blocks.set block.header.height block ∧
      store.metadata = some
        { version := chain.version
          chainId := chain.chainId
          receiptCacheBlocks := chain.receiptCache.maxBlocks
          genesisBlockHash := node.genesisBlockHash
          currentHeight := block.header.height
          currentBlockHash := block.blockHash
          currentStateRoot := block.header.stateRoot } := by
  simp only [save, ConsensusStateStore.saveAppliedBlock, bind_eq_ok, require_eq_ok, exists_const,
    pure_eq_ok] at saved
  obtain ⟨_, ⟨fresh, _⟩, rfl⟩ := saved
  exact ⟨fresh, rfl, rfl⟩

/-- A chain that differs from the saved one in its pool has the same store. -/
theorem StoreSound.restore (sound : StoreSound chainId receiptCacheBlocks genesisBlockHash node)
    {chain : ChainStateV2 H} {genesis : H} (ledger : chain.SameLedger node.chain)
    (wellFormed : chain.WellFormed) (genesis_eq : genesis = genesisBlockHash) :
    StoreSound chainId receiptCacheBlocks genesisBlockHash
      { node with chain := chain, genesisBlockHash := genesis } := by
  obtain ⟨replica, replayed, same⟩ := sound.replay
  have replay := same.trans ledger.symm
  obtain ⟨pool, rfl⟩ := ledger
  exact
    { wellFormed := wellFormed
      hasVersion := sound.hasVersion
      hasChainId := sound.hasChainId
      maxBlocks := sound.maxBlocks
      genesis := genesis_eq
      heights := sound.heights
      replay := ⟨replica, replayed, replay⟩
      metadata := sound.metadata }

/-- The receipts of an accepted block cover its senders, so it is saved when it is new. -/
theorem exists_save (chain : ChainStateV2 H) {block : BlockV2 H}
    (fresh : block.header.height ∉ node.store.blocks.keys)
    (unseen : ∀ stored ∈ node.store.blocks.values, stored.blockHash ≠ block.blockHash) :
    ∃ store, node.save chain block (node.chain.blockReceipts block) = .ok store := by
  have covered : ∀ entry ∈ block.diffPackage.diffEntries,
      entry.newLeaf.addr ∈ (node.chain.blockReceipts block).keys := by
    intro entry member
    rw [ChainStateV2.blockReceipts, ChainStateV2.receiptDict, OrderedDict.mem_keys_setAll]
    left
    rw [List.map_map]
    exact List.mem_map_of_mem (f := fun entry : DiffEntry H => entry.newLeaf.addr) member
  simp only [save, ConsensusStateStore.saveAppliedBlock, bind_eq_ok, require_eq_ok, exists_const,
    pure_eq_ok]
  exact ⟨_, covered, ⟨fresh, unseen⟩, rfl⟩

/-- Saving an accepted block together with its state keeps the store sound. -/
theorem StoreSound.extend (sound : StoreSound chainId receiptCacheBlocks genesisBlockHash node)
    {block : BlockV2 H} {chain : ChainStateV2 H} {receipts : OrderedDict Address (Receipt H)}
    {store : ConsensusStateStore H} (accepted : node.chain.BlockAccepted block)
    (ledger : chain.SameLedger (node.chain.nextState block)) (wellFormed : chain.WellFormed)
    (saved : node.save chain block receipts = .ok store) :
    StoreSound chainId receiptCacheBlocks genesisBlockHash
      { node with chain := chain, store := store } := by
  obtain ⟨fresh, blocks_eq, metadata_eq⟩ := save_eq_ok saved
  have entries_eq : store.blocks.entries =
      node.store.blocks.entries ++ [(block.header.height, block)] := by
    rw [blocks_eq]
    exact node.store.blocks.entries_set_of_notMem fresh block
  obtain ⟨pool, rfl⟩ := ledger
  refine ⟨wellFormed, sound.hasVersion, sound.hasChainId, ?_, sound.genesis, ?_, ?_, .inr ?_⟩
  · exact (node.chain.maxBlocks_nextState block).trans sound.maxBlocks
  · have keys_eq : store.blocks.keys = node.store.blocks.keys ++ [block.header.height] := by
      simp only [OrderedDict.keys, entries_eq, List.map_append, List.map_cons, List.map_nil]
    calc
      store.blocks.keys = List.range' 1 node.chain.currentHeight ++ [block.header.height] := by
        rw [keys_eq, sound.heights]
      _ = List.range' 1 (node.chain.currentHeight + 1) := by
        rw [accepted.height, List.range'_concat, Nat.add_comm, Nat.one_mul, Nat.add_comm]
      _ = List.range' 1 block.header.height := by rw [accepted.height]
  · obtain ⟨replica, replayed, same⟩ := sound.replay
    have values_eq : store.blocks.values = node.store.blocks.values ++ [block] := by
      simp only [OrderedDict.values, entries_eq, List.map_append, List.map_cons, List.map_nil]
    refine ⟨replica.nextState block, ?_, (same.nextState block).trans ⟨_, rfl⟩⟩
    rw [values_eq]
    exact (ChainStateV2.applyBlocks_concat_eq_ok _ _ _ _).mpr
      ⟨replica, replayed, same.blockAccepted accepted, rfl⟩
  · rw [metadata_eq, ← accepted.stateRoot, sound.genesis]
    rfl

omit [Crypto H] [DecidableEq H] in
theorem initialChain_max (chainId receiptCacheBlocks : ℕ) (genesisBlockHash : H) :
    initialChain chainId (max 1 receiptCacheBlocks) genesisBlockHash =
      initialChain chainId receiptCacheBlocks genesisBlockHash := by
  have cache_eq : ReceiptCache.new H (max 1 receiptCacheBlocks) =
      ReceiptCache.new H receiptCacheBlocks := by
    rw [ReceiptCache.new, max_eq_right (le_max_left 1 receiptCacheBlocks), ReceiptCache.new]
  simp only [initialChain, ChainStateV2.new, cache_eq]

/-- Loading a sound store restores the chain up to its pool. -/
theorem StoreSound.load (sound : StoreSound chainId receiptCacheBlocks genesisBlockHash node) :
    ∃ chain, node.store.loadChainState 2 chainId receiptCacheBlocks genesisBlockHash = .ok chain ∧
      chain.SameLedger node.chain ∧ chain.WellFormed := by
  obtain ⟨replica, replayed, same⟩ := sound.replay
  have initial := ChainStateV2.wellFormed_new 2 chainId receiptCacheBlocks 32768 128 64
    genesisBlockHash
  refine ⟨replica, ?_, same, initial.applyBlocks replayed⟩
  rcases sound.metadata with store_eq | metadata_eq
  · rw [store_eq] at replayed ⊢
    exact replayed
  · have listed : node.store.listBlocks = node.store.blocks.values := by
      rw [ConsensusStateStore.listBlocks, OrderedDict.values]
      congr 1
      apply List.Pairwise.insertionSort_eq
      have sorted_keys : node.store.blocks.keys.Pairwise (· ≤ ·) := by
        rw [sound.heights]
        exact List.Pairwise.imp Nat.le_of_lt List.pairwise_lt_range'
      exact List.pairwise_map.mp sorted_keys
    simp only [ConsensusStateStore.loadChainState, metadata_eq, bind_eq_ok, require_eq_ok,
      exists_const, pure_eq_ok]
    refine ⟨sound.hasVersion, sound.hasChainId, replica, ?_, ?_⟩
    · simp only [metadataOf, sound.hasVersion, sound.hasChainId, sound.maxBlocks, listed]
      rw [← replayed, ← initialChain_max]
    · obtain ⟨pool, rfl⟩ := same
      exact ⟨rfl, rfl, rfl, rfl⟩

/-- Every call of a node keeps its store sound. -/
theorem StoreSound.step {next : ConsensusNode H} (ideal : IdealAddrKeys H)
    (sound : StoreSound chainId receiptCacheBlocks genesisBlockHash node)
    (stepped : Step chainId receiptCacheBlocks genesisBlockHash node next) :
    StoreSound chainId receiptCacheBlocks genesisBlockHash next := by
  cases stepped with
  | submitBundle submitted =>
      have wellFormed := sound.wellFormed.submitBundle submitted
      have ledger := ChainStateV2.sameLedger_submitBundle submitted
      exact sound.restore ledger wellFormed sound.genesis
  | @produceBlock timestamp proposerSig consensusExtra limit block receipts chain store _ alive
      built saved =>
      obtain ⟨built_eq, ledger⟩ :=
        node.chain.buildBlock_eq timestamp proposerSig consensusExtra limit
      have wellFormed :=
        sound.wellFormed.buildBlock timestamp proposerSig consensusExtra limit
      have accepted := sound.wellFormed.builtBlock_accepted ideal alive timestamp proposerSig
        consensusExtra
      rw [built] at built_eq ledger wellFormed
      obtain ⟨rfl, _⟩ := Prod.mk.inj built_eq
      exact sound.extend accepted ledger wellFormed saved
  | applyBlock applied saved =>
      obtain ⟨accepted, _, rfl⟩ := (ChainStateV2.applyBlock_eq_ok_iff _ _ _ _).mp applied
      exact sound.extend accepted (.refl _) (sound.wellFormed.nextState accepted) saved
  | restart loaded =>
      obtain ⟨restored, restored_eq, ledger, wellFormed⟩ := sound.load
      rw [loaded, Except.ok.injEq] at restored_eq
      subst restored_eq
      apply sound.restore ledger wellFormed
      rcases sound.metadata with store_eq | metadata_eq
      · rw [store_eq]
        rfl
      · rw [metadata_eq]
        rfl

/-- The store of every reachable node is sound. -/
theorem Reachable.storeSound (ideal : IdealAddrKeys H)
    (reachable : Reachable chainId receiptCacheBlocks genesisBlockHash node) :
    StoreSound chainId receiptCacheBlocks genesisBlockHash node := by
  induction reachable with
  | refl => exact storeSound_new chainId receiptCacheBlocks genesisBlockHash
  | tail _ stepped induction => exact induction.step ideal stepped

/-- Builders and replicas agree.  In every reachable state whose packed bundles outlive the next
height, a replica with the same ledger applies the built block, with the same receipts and the
same ledger afterwards; and every node that only built such blocks, or applied blocks of peers, is
restored from its store. -/
theorem builder_replica_agree (ideal : IdealAddrKeys H) :
    (∀ (version chainId receiptCacheBlocks maxBundleBytes maxTxPerBundle maxValueEntriesPerTx : ℕ)
      (genesisBlockHash : H) (actions : List (ChainStateV2.ChainAction H)) (timestamp : ℕ)
      (proposerSig consensusExtra : Bytes) (limit : Option ℤ),
      let state := (ChainStateV2.new version chainId receiptCacheBlocks maxBundleBytes
        maxTxPerBundle maxValueEntriesPerTx genesisBlockHash).run actions
      let built := state.buildBlock timestamp proposerSig consensusExtra limit
      PackedAlive state limit → ∀ replica : ChainStateV2 H, replica.SameLedger state →
        ∃ next, replica.applyBlock built.1.1 = (.ok built.1.2, next) ∧
          next.SameLedger built.2) ∧
      ∀ (chainId receiptCacheBlocks : ℕ) (genesisBlockHash : H) (node : ConsensusNode H),
        Reachable chainId receiptCacheBlocks genesisBlockHash node →
          ∃ chain, node.store.loadChainState 2 chainId receiptCacheBlocks genesisBlockHash =
            .ok chain ∧ chain.SameLedger node.chain := by
  constructor
  · intro version chainId receiptCacheBlocks maxBundleBytes maxTxPerBundle maxValueEntriesPerTx
      genesisBlockHash actions timestamp proposerSig consensusExtra limit state built alive replica
      same
    have initial := ChainStateV2.wellFormed_new version chainId receiptCacheBlocks maxBundleBytes
      maxTxPerBundle maxValueEntriesPerTx genesisBlockHash
    exact (initial.run actions).replica_applies ideal alive timestamp proposerSig consensusExtra
      same
  · intro chainId receiptCacheBlocks genesisBlockHash node reachable
    obtain ⟨chain, loaded, ledger, _⟩ := (reachable.storeSound ideal).load
    exact ⟨chain, loaded, ledger⟩

section Examples

open SymbolicDigest

/-- Alice's first bundle as she submits it. -/
def firstSubmission : BundleSubmission SymbolicDigest where
  envelope := signedEnvelope firstBundle 1 Nat.one_pos [1]
  sidecar := firstBundle
  senderPublicKeyPem := [1]

/-- The chain whose pool holds Alice's first bundle. -/
def pendingFirst : ChainStateV2 SymbolicDigest :=
  { genesis with
    bundlePool := { genesis.bundlePool with
      pendingBySender := genesis.bundlePool.pendingBySender.set alice firstSubmission } }

/-- The node that received Alice's first bundle. -/
def pendingNode : ConsensusNode SymbolicDigest :=
  { new 1 32 (filled 0) with chain := pendingFirst }

theorem submitBundle_first : genesis.submitBundle firstSubmission = .ok pendingFirst := by
  have checked : genesis.bundlePool.checkSubmission firstSubmission 0 = .ok alice := by
    simp only [BundlePool.checkSubmission, bind_eq_ok, require_eq_ok, exists_const, pure_eq_ok]
    exact ⟨alice, rfl, rfl, rfl, by decide, rfl, .inl rfl, by decide, by decide, by decide,
      by decide, rfl⟩
  simp only [ChainStateV2.submitBundle, BundlePool.submit, bind_eq_ok, pure_eq_ok]
  refine ⟨alice, rfl, pendingFirst.bundlePool, ⟨alice, checked, ?_⟩, rfl⟩
  exact ⟨(), require_of (.inl rfl) _, rfl⟩

theorem snapshot_ne_nil {pool : BundlePool SymbolicDigest} {sender : Address}
    {submission : BundleSubmission SymbolicDigest}
    (pending : pool.pendingBySender.get? sender = some submission) : pool.snapshot none ≠ [] := by
  have stored := (OrderedDict.mem_values_iff _ _).mpr ⟨sender, pending⟩
  have packed := (List.perm_insertionSort (fun left right : BundleSubmission SymbolicDigest =>
    keyLe (computeAddrKey SymbolicDigest left.sidecar.senderAddr)
      (computeAddrKey SymbolicDigest right.sidecar.senderAddr)) _).mem_iff.mpr stored
  exact List.ne_nil_of_mem packed

theorem snapshot_pendingFirst : pendingFirst.bundlePool.snapshot none ≠ [] :=
  snapshot_ne_nil (OrderedDict.get?_set_self _ alice firstSubmission)

theorem pendingFirst_alive : PackedAlive pendingFirst none := by
  intro submission member
  obtain ⟨addr, pending⟩ := ChainStateV2.mem_snapshot member
  rw [pendingFirst, OrderedDict.get?_set] at pending
  split at pending
  · rw [← Option.some.inj pending]
    decide
  · cases pending

/-- Bob's first bundle as he submits it. -/
def bobSubmission : BundleSubmission SymbolicDigest where
  envelope := signedEnvelope bobBundle 1 Nat.one_pos [2]
  sidecar := bobBundle
  senderPublicKeyPem := [2]

/-- The chain with Alice's bundle whose pool holds Bob's. -/
def pendingBob : ChainStateV2 SymbolicDigest :=
  { afterFirst with
    bundlePool := { afterFirst.bundlePool with
      pendingBySender := afterFirst.bundlePool.pendingBySender.set bob bobSubmission } }

theorem submitBundle_bob : afterFirst.submitBundle bobSubmission = .ok pendingBob := by
  have checked : afterFirst.bundlePool.checkSubmission bobSubmission 0 = .ok bob := by
    simp only [BundlePool.checkSubmission, bind_eq_ok, require_eq_ok, exists_const, pure_eq_ok]
    exact ⟨bob, rfl, rfl, rfl, by decide, rfl, .inl rfl, by decide, by decide, by decide,
      by decide, rfl⟩
  simp only [ChainStateV2.submitBundle, BundlePool.submit, bind_eq_ok, pure_eq_ok]
  refine ⟨bob, rfl, pendingBob.bundlePool, ⟨bob, checked, ?_⟩, rfl⟩
  exact ⟨(), require_of (.inl rfl) _, rfl⟩

theorem pendingBob_alive : PackedAlive pendingBob none := by
  intro submission member
  obtain ⟨addr, pending⟩ := ChainStateV2.mem_snapshot member
  rw [pendingBob, OrderedDict.get?_set] at pending
  split at pending
  · rw [← Option.some.inj pending]
    decide
  · cases pending

/-- A node applies Alice's block of a peer and then builds a block of Bob's bundle. -/
theorem exists_reachable_two : ∃ node : ConsensusNode SymbolicDigest,
    Reachable 1 32 (filled 0) node ∧ node.chain.currentHeight = 2 := by
  have accepted : genesis.BlockAccepted (genesis.peerBlock 1 firstEntry) :=
    ChainStateV2.peerBlock_accepted 1 firstEntry_valid
  have applies : ∃ store, (new 1 32 (filled 0)).save afterFirst (genesis.peerBlock 1 firstEntry)
      (genesis.blockReceipts (genesis.peerBlock 1 firstEntry)) = .ok store :=
    exists_save _ (by nofun) (by nofun)
  obtain ⟨store, saved⟩ := applies
  have applied : Step 1 32 (filled 0) (new 1 32 (filled 0))
      { new 1 32 (filled 0) with chain := afterFirst, store := store } :=
    .applyBlock (ChainStateV2.applyBlock_of_accepted accepted) saved
  have submitted : Step 1 32 (filled 0)
      { new 1 32 (filled 0) with chain := afterFirst, store := store }
      { new 1 32 (filled 0) with chain := pendingBob, store := store } :=
    .submitBundle submitBundle_bob
  have reachable := (Relation.ReflTransGen.single applied).tail submitted
  have wellFormed : pendingBob.WellFormed :=
    (Reachable.storeSound idealAddrKeys reachable).wellFormed
  have next_accepted := wellFormed.builtBlock_accepted idealAddrKeys pendingBob_alive 2 [] []
  obtain ⟨built_eq, pool, ledger⟩ := pendingBob.buildBlock_eq 2 [] [] none
  obtain ⟨-, blocks_eq, -⟩ := save_eq_ok saved
  have fresh : (pendingBob.builtBlock 2 [] [] none).header.height ∉ store.blocks.keys := by
    rw [blocks_eq, OrderedDict.mem_keys_set, next_accepted.height]
    rintro (height_eq | mem)
    · cases height_eq
    · cases mem
  have unseen : ∀ stored ∈ store.blocks.values,
      stored.blockHash ≠ (pendingBob.builtBlock 2 [] [] none).blockHash := by
    intro stored mem same
    rw [blocks_eq] at mem
    obtain rfl : stored = genesis.peerBlock 1 firstEntry := List.mem_singleton.mp mem
    rw [← accepted.blockHash, ← next_accepted.blockHash] at same
    have height_eq := (deriveBlockHash_injective idealHash same).1
    rw [accepted.height, next_accepted.height] at height_eq
    cases height_eq
  have produces : ∃ next, ({ new 1 32 (filled 0) with chain := pendingBob, store := store } :
      ConsensusNode SymbolicDigest).save (pendingBob.buildBlock 2 [] [] none).2
        (pendingBob.builtBlock 2 [] [] none)
        (pendingBob.blockReceipts (pendingBob.builtBlock 2 [] [] none)) = .ok next :=
    exists_save _ fresh unseen
  obtain ⟨next, next_saved⟩ := produces
  have produced : Step 1 32 (filled 0)
      { new 1 32 (filled 0) with chain := pendingBob, store := store }
      { new 1 32 (filled 0) with
        chain := (pendingBob.buildBlock 2 [] [] none).2, store := next } :=
    .produceBlock (snapshot_ne_nil (OrderedDict.get?_set_self _ bob bobSubmission))
      pendingBob_alive (Prod.ext built_eq rfl) next_saved
  refine ⟨_, reachable.tail produced, ?_⟩
  rw [ledger]
  exact next_accepted.height

/-- A replica that saw Alice's block applies the block that packs Bob's bundle, and a node with both
blocks is restored from its store. -/
theorem builder_replica_agree_twoBundles :
    (∃ next, afterFirst.applyBlock (pendingBob.buildBlock 2 [] [] none).1.1 =
        (.ok (pendingBob.buildBlock 2 [] [] none).1.2, next) ∧
      next.SameLedger (pendingBob.buildBlock 2 [] [] none).2) ∧
    ∃ node : ConsensusNode SymbolicDigest, node.chain.currentHeight = 2 ∧
      ∃ chain, node.store.loadChainState 2 1 32 (filled 0) = .ok chain ∧
        chain.SameLedger node.chain := by
  have run_eq : genesis.run [.applyBlock (genesis.peerBlock 1 firstEntry),
      .submitBundle bobSubmission] = pendingBob := by
    have accepted : genesis.BlockAccepted (genesis.peerBlock 1 firstEntry) :=
      ChainStateV2.peerBlock_accepted 1 firstEntry_valid
    rw [ChainStateV2.run_applyBlock accepted]
    exact ChainStateV2.run_singleton_submitBundle submitBundle_bob
  constructor
  · have agree := (builder_replica_agree idealAddrKeys).1 2 1 32 32768 128 64 (filled 0)
      [.applyBlock (genesis.peerBlock 1 firstEntry), .submitBundle bobSubmission] 2 [] [] none
    rw [run_eq] at agree
    exact agree pendingBob_alive afterFirst
      (ChainStateV2.sameLedger_submitBundle submitBundle_bob).symm
  · obtain ⟨node, reachable, height_eq⟩ := exists_reachable_two
    exact ⟨node, height_eq, (builder_replica_agree idealAddrKeys).2 1 32 (filled 0) _ reachable⟩

end Examples

end ConsensusNode

end EZChain
