import EZChain.Chain.Reachable

/-!
# Consensus node with a state store

A node keeps its chain in memory and writes every block that it builds or applies to a store.  The
chain is rebuilt from the store by applying the stored blocks in the order of their heights.
Loading does not read the receipt tables and the allocation table, so they are left out here.
-/

namespace EZChain

open Checks

variable {H : Type}

/-- `ConsensusStateMetadata`. -/
structure ConsensusStateMetadata (H : Type) where
  version : ℕ
  chainId : ℕ
  /-- The number of blocks whose receipts are kept. -/
  receiptCacheBlocks : ℕ
  genesisBlockHash : H
  /-- Height of the last saved block. -/
  currentHeight : ℕ
  /-- Hash of the last saved block. -/
  currentBlockHash : H
  /-- Root of the state tree after it. -/
  currentStateRoot : H

/-- `ConsensusStateStore`: the metadata row and the block rows, which are keyed by height. -/
structure ConsensusStateStore (H : Type) where
  /-- The only row of the metadata table. -/
  metadata : Option (ConsensusStateMetadata H)
  /-- The saved blocks, by height. -/
  blocks : OrderedDict ℕ (BlockV2 H)

namespace ConsensusStateStore

/-- A store without rows. -/
def empty (H : Type) : ConsensusStateStore H := ⟨none, ∅⟩

/-- `list_blocks`: the stored blocks in the order of their heights. -/
def listBlocks (store : ConsensusStateStore H) : List (BlockV2 H) :=
  (store.blocks.entries.insertionSort fun left right => left.1 ≤ right.1).map Prod.snd

variable [Crypto H] [DecidableEq H]

/-- `save_applied_block`: heights and block hashes are unique keys of the block table. -/
def saveAppliedBlock (store : ConsensusStateStore H) (block : BlockV2 H)
    (receipts : OrderedDict Address (Receipt H)) (version chainId receiptCacheBlocks : ℕ)
    (genesisBlockHash : H) : Except String (ConsensusStateStore H) := do
  require (∀ entry ∈ block.diffPackage.diffEntries, entry.newLeaf.addr ∈ receipts.keys)
    "missing receipts for persisted block"
  require (block.header.height ∉ store.blocks.keys ∧
    ∀ stored ∈ store.blocks.values, stored.blockHash ≠ block.blockHash)
    "block already persisted or conflicts with existing history"
  pure
    { metadata := some
        { version := version
          chainId := chainId
          receiptCacheBlocks := receiptCacheBlocks
          genesisBlockHash := genesisBlockHash
          currentHeight := block.header.height
          currentBlockHash := block.blockHash
          currentStateRoot := block.header.stateRoot }
      blocks := store.blocks.set block.header.height block }

/-- `load_chain_state`. -/
def loadChainState (store : ConsensusStateStore H) (version chainId receiptCacheBlocks : ℕ)
    (genesisBlockHash : H) : Except String (ChainStateV2 H) :=
  match store.metadata with
  | none => .ok (.new version chainId receiptCacheBlocks 32768 128 64 genesisBlockHash)
  | some metadata => do
      require (metadata.version = version) "persisted chain version mismatch"
      require (metadata.chainId = chainId) "persisted chain_id mismatch"
      let chain ← (ChainStateV2.new metadata.version metadata.chainId metadata.receiptCacheBlocks
        32768 128 64 metadata.genesisBlockHash).applyBlocks store.listBlocks
      require (chain.currentHeight = metadata.currentHeight) "persisted chain height mismatch"
      require (chain.currentBlockHash = metadata.currentBlockHash)
        "persisted current block hash mismatch"
      require (chain.tree.root = metadata.currentStateRoot) "persisted state root mismatch"
      pure chain

end ConsensusStateStore

/-- `V2ConsensusNode`. -/
structure ConsensusNode (H : Type) where
  /-- The chain in memory. -/
  chain : ChainStateV2 H
  /-- The database. -/
  store : ConsensusStateStore H
  /-- The hash that the chain starts from. -/
  genesisBlockHash : H

namespace ConsensusNode

variable [Crypto H] [DecidableEq H]

/-- A node that opens an empty store. -/
def new (chainId receiptCacheBlocks : ℕ) (genesisBlockHash : H) : ConsensusNode H where
  chain := .new 2 chainId receiptCacheBlocks 32768 128 64 genesisBlockHash
  store := .empty H
  genesisBlockHash := genesisBlockHash

/-- Save the block that led to a chain state. -/
def save (node : ConsensusNode H) (chain : ChainStateV2 H) (block : BlockV2 H)
    (receipts : OrderedDict Address (Receipt H)) : Except String (ConsensusStateStore H) :=
  node.store.saveAppliedBlock block receipts chain.version chain.chainId
    chain.receiptCache.maxBlocks node.genesisBlockHash

/-- Every bundle that a build with the given limit packs outlives the next height. -/
def PackedAlive (chain : ChainStateV2 H) (limit : Option ℤ) : Prop :=
  ∀ submission ∈ chain.bundlePool.snapshot limit,
    chain.currentHeight + 1 ≤ submission.envelope.expiryHeight

/-- Calls of a node that succeed, built blocks packing only unexpired bundles. -/
inductive Step (chainId receiptCacheBlocks : ℕ) (genesisBlockHash : H) :
    ConsensusNode H → ConsensusNode H → Prop
  | submitBundle {node : ConsensusNode H} {submission : BundleSubmission H}
      {chain : ChainStateV2 H} (submitted : node.chain.submitBundle submission = .ok chain) :
      Step chainId receiptCacheBlocks genesisBlockHash node { node with chain := chain }
  | produceBlock {node : ConsensusNode H} {timestamp : ℕ} {proposerSig consensusExtra : Bytes}
      {limit : Option ℤ} {block : BlockV2 H} {receipts : OrderedDict Address (Receipt H)}
      {chain : ChainStateV2 H} {store : ConsensusStateStore H}
      (pending : node.chain.bundlePool.snapshot limit ≠ [])
      (alive : PackedAlive node.chain limit)
      (built : node.chain.buildBlock timestamp proposerSig consensusExtra limit =
        ((block, receipts), chain))
      (saved : node.save chain block receipts = .ok store) :
      Step chainId receiptCacheBlocks genesisBlockHash node
        { node with chain := chain, store := store }
  | applyBlock {node : ConsensusNode H} {block : BlockV2 H}
      {receipts : OrderedDict Address (Receipt H)} {chain : ChainStateV2 H}
      {store : ConsensusStateStore H}
      (applied : node.chain.applyBlock block = (.ok receipts, chain))
      (saved : node.save chain block receipts = .ok store) :
      Step chainId receiptCacheBlocks genesisBlockHash node
        { node with chain := chain, store := store }
  | restart {node : ConsensusNode H} {chain : ChainStateV2 H}
      (loaded : node.store.loadChainState 2 chainId receiptCacheBlocks genesisBlockHash =
        .ok chain) :
      Step chainId receiptCacheBlocks genesisBlockHash node
        { node with
          chain := chain
          genesisBlockHash := (node.store.metadata.map
            ConsensusStateMetadata.genesisBlockHash).getD genesisBlockHash }

/-- Nodes reached from a node that opened an empty store. -/
def Reachable (chainId receiptCacheBlocks : ℕ) (genesisBlockHash : H) (node : ConsensusNode H) :
    Prop :=
  Relation.ReflTransGen (Step chainId receiptCacheBlocks genesisBlockHash)
    (new chainId receiptCacheBlocks genesisBlockHash) node

end ConsensusNode

end EZChain
