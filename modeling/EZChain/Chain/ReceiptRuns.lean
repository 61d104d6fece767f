import EZChain.Chain.Reachable
import EZChain.Chain.ReceiptWindow

/-!
# Receipts along a run

Every block that a chain state builds or applies adds its receipts and its proof batch to the cache.
The receipts of one block belong to different senders and their references name the block hash, so
references repeat neither inside a block nor from one block to another.  As long as no sender
confirms a seq twice, the cache therefore holds exactly the last non-empty blocks.
-/

namespace EZChain

open Checks

namespace ChainStateV2

variable {H : Type} [Crypto H] [DecidableEq H]

/-! ## What a block adds -/

/-- The cached receipt of an entry whose leaf has a head reference. -/
def cachedReceipt (state : ChainStateV2 H) (block : BlockV2 H) (entry : DiffEntry H) :
    Option (Address × Receipt H × BundleRef H) :=
  entry.newLeaf.headRef.map fun headRef =>
    (entry.newLeaf.addr,
      state.appliedReceipt block (setLeaves state.tree block.diffPackage.diffEntries) entry,
        headRef)

/-- The receipts of a block that extends a state, and their proof batch. -/
def cachedBlock (state : ChainStateV2 H) (block : BlockV2 H) : CachedBlock H where
  batch := proofBatch block.header.height block.blockHash block.header.stateRoot
    (setLeaves state.tree block.diffPackage.diffEntries) block.diffPackage.diffEntries
  receipts := block.diffPackage.diffEntries.filterMap (state.cachedReceipt block)

/-- Senders and seqs of the bundles that a block confirms. -/
def confirmedSeqs (block : BlockV2 H) : List (Address × ℕ) :=
  block.diffPackage.diffEntries.map fun entry => (entry.newLeaf.addr, entry.bundleEnvelope.seq)

omit [DecidableEq H] in
theorem consistent_cachedBlock (state : ChainStateV2 H) (block : BlockV2 H) :
    (state.cachedBlock block).Consistent := by
  intro item member
  obtain ⟨entry, _, cached⟩ := List.mem_filterMap.mp member
  obtain ⟨headRef, _, rfl⟩ := Option.map_eq_some_iff.mp cached
  rfl

/-- What the blocks of a run have in common, whether they were built or applied. -/
structure Committed (block : BlockV2 H) : Prop where
  blockHash : ∃ version chainId prevBlockHash timestamp proposerSig consensusExtra,
    deriveBlockHash version chainId block.header.height prevBlockHash timestamp proposerSig
      consensusExtra block.diffPackage.diffEntries = block.blockHash
  sendersNodup : (block.diffPackage.diffEntries.map fun entry => entry.newLeaf.addr).Nodup
  bodies : ∀ entry ∈ block.diffPackage.diffEntries, ∃ sidecar : BundleSidecar,
    sidecar.senderAddr = entry.newLeaf.addr ∧ entry.bundleHash = computeBundleHash sidecar
  headRefs : ∀ entry ∈ block.diffPackage.diffEntries, ∃ headRef,
    entry.newLeaf.headRef = some headRef ∧ headRef.bundleHash = entry.bundleHash ∧
      headRef.blockHash = block.blockHash

omit [DecidableEq H] in
theorem BlockAccepted.committed {state : ChainStateV2 H} {block : BlockV2 H}
    (accepted : state.BlockAccepted block) : Committed block where
  blockHash := ⟨_, _, _, _, _, _, accepted.blockHash⟩
  sendersNodup := accepted.sendersNodup
  bodies entry member := by
    obtain ⟨sidecar, _, _, entry_accepted⟩ := accepted.exists_entryAccepted member
    exact ⟨sidecar, entry_accepted.sender, entry_accepted.bundleHash⟩
  headRefs entry member := by
    obtain ⟨sidecar, _, _, entry_accepted⟩ := accepted.exists_entryAccepted member
    obtain ⟨headRef, found, bundle_eq, block_eq⟩ := entry_accepted.headRef
    exact ⟨headRef, found, bundle_eq.trans entry_accepted.bundleHash.symm, block_eq⟩

omit [DecidableEq H] in
theorem WellFormed.committed_builtBlock {state : ChainStateV2 H} (wellFormed : state.WellFormed)
    (timestamp : ℕ) (proposerSig consensusExtra : Bytes) (limit : Option ℤ) :
    Committed (state.builtBlock timestamp proposerSig consensusExtra limit) := by
  have ready := (wellFormed.snapshot_ready limit).sorted
  constructor
  · exact ⟨_, _, _, _, _, _, state.deriveBlockHash_executedBlock _ _ _ _⟩
  · rw [builtBlock, diffEntries_executedBlock, List.map_map]
    exact ready.sendersNodup
  · rw [builtBlock, diffEntries_executedBlock]
    intro entry member
    obtain ⟨submission, submission_mem, rfl⟩ := List.mem_map.mp member
    exact ⟨submission.sidecar, rfl, (ready.ready submission submission_mem).bundleHash⟩
  · rw [builtBlock, diffEntries_executedBlock]
    intro entry member
    obtain ⟨submission, _, rfl⟩ := List.mem_map.mp member
    exact ⟨_, rfl, rfl, rfl⟩

section Block

variable {state : ChainStateV2 H} {block : BlockV2 H}

variable (state) in
omit [DecidableEq H] in
theorem Committed.cachedReceipt_eq (committed : Committed block) {entry : DiffEntry H}
    (member : entry ∈ block.diffPackage.diffEntries) : ∃ headRef,
      headRef.bundleHash = entry.bundleHash ∧ headRef.blockHash = block.blockHash ∧
      state.cachedReceipt block entry = some (entry.newLeaf.addr, state.appliedReceipt block
        (setLeaves state.tree block.diffPackage.diffEntries) entry, headRef) := by
  obtain ⟨headRef, found, bundle_eq, block_eq⟩ := committed.headRefs entry member
  exact ⟨headRef, bundle_eq, block_eq, by rw [cachedReceipt, found]; rfl⟩

variable (state) in
omit [DecidableEq H] in
theorem Committed.senderSeqs_cachedBlock (committed : Committed block) :
    (state.cachedBlock block).senderSeqs = confirmedSeqs block := by
  rw [CachedBlock.senderSeqs, cachedBlock, List.map_filterMap, confirmedSeqs,
    ← List.filterMap_eq_map]
  apply List.filterMap_congr
  intro entry member
  obtain ⟨headRef, _, _, cached⟩ := committed.cachedReceipt_eq state member
  rw [cached]
  rfl

omit [DecidableEq H] in
theorem Committed.map_refs_cachedBlock (committed : Committed block) :
    (state.cachedBlock block).refs.map BundleRef.bundleHash =
      block.diffPackage.diffEntries.map DiffEntry.bundleHash := by
  rw [CachedBlock.refs, cachedBlock, List.map_map, List.map_filterMap, ← List.filterMap_eq_map]
  apply List.filterMap_congr
  intro entry member
  obtain ⟨headRef, bundle_eq, _, cached⟩ := committed.cachedReceipt_eq state member
  rw [cached]
  exact congrArg some bundle_eq

omit [DecidableEq H] in
theorem Committed.nodup_refs (ideal : IdealHash H) (committed : Committed block) :
    (state.cachedBlock block).refs.Nodup := by
  apply List.Nodup.of_map BundleRef.bundleHash
  rw [committed.map_refs_cachedBlock]
  refine List.Nodup.map_on ?_ (committed.sendersNodup.of_map _)
  intro left left_mem right right_mem hash_eq
  obtain ⟨sidecar, sender_eq, body_eq⟩ := committed.bodies left left_mem
  obtain ⟨sidecar', sender_eq', body_eq'⟩ := committed.bodies right right_mem
  have same_body : sidecar = sidecar' := by
    apply computeBundleHash_injective ideal
    rw [← body_eq, ← body_eq', hash_eq]
  apply List.inj_on_of_nodup_map committed.sendersNodup left_mem right_mem
  rw [← sender_eq, ← sender_eq', same_body]

omit [DecidableEq H] in
theorem Committed.blockHash_of_mem_refs (committed : Committed block) {ref : BundleRef H}
    (member : ref ∈ (state.cachedBlock block).refs) : ref.blockHash = block.blockHash := by
  obtain ⟨item, item_mem, rfl⟩ := List.mem_map.mp member
  obtain ⟨entry, entry_mem, cached⟩ := List.mem_filterMap.mp item_mem
  obtain ⟨headRef, _, block_eq, cached'⟩ := committed.cachedReceipt_eq state entry_mem
  rw [← Option.some.inj (cached'.symm.trans cached)]
  exact block_eq

/-- The cache after a block is the cache before it with the block added. -/
theorem Committed.receiptCache_nextState (committed : Committed block) :
    (state.nextState block).receiptCache =
      state.receiptCache.addBlock (state.cachedBlock block) := by
  have receipts_nil : (state.cachedBlock block).receipts = [] ↔
      block.diffPackage.diffEntries = [] := by
    have lengths := congrArg List.length (committed.senderSeqs_cachedBlock state)
    rw [CachedBlock.senderSeqs, confirmedSeqs, List.length_map, List.length_map] at lengths
    rw [← List.length_eq_zero_iff, ← List.length_eq_zero_iff, lengths]
  by_cases empty : block.diffPackage.diffEntries = []
  · rw [ReceiptCache.addBlock, if_pos (receipts_nil.mpr empty)]
    simp only [nextState, addReceipts, empty, if_true, List.foldl_nil]
  · rw [ReceiptCache.addBlock, if_neg fun none => empty (receipts_nil.mp none), cachedBlock,
      List.foldl_filterMap]
    simp only [nextState, addReceipts, if_neg empty]
    apply List.foldl_ext
    intro cache entry member
    obtain ⟨headRef, found, _⟩ := committed.headRefs entry member
    simp only [addReceipt, cachedReceipt, found, Option.map_some]

end Block

/-! ## One call -/

/-- A call extended the chain by one block. -/
structure Extended (state next : ChainStateV2 H) (block : BlockV2 H) : Prop where
  committed : Committed block
  height : block.header.height = state.currentHeight + 1
  nextHeight : next.currentHeight = block.header.height
  blocks : next.blocks = state.blocks ++ [block]
  cache : next.receiptCache = state.receiptCache.addBlock (state.cachedBlock block)

/-- A call extends the chain by one block or leaves its blocks and its cache as they are. -/
theorem WellFormed.step_cases {state : ChainStateV2 H} (wellFormed : state.WellFormed)
    (action : ChainAction H) :
    ((state.step action).currentHeight = state.currentHeight ∧
      (state.step action).blocks = state.blocks ∧
      (state.step action).receiptCache = state.receiptCache) ∨
    ∃ block, Extended state (state.step action) block := by
  cases action with
  | submitBundle submission =>
      left
      cases submitted : state.submitBundle submission with
      | error message => simp only [ChainStateV2.step, submitted, and_self]
      | ok next =>
          have unchanged : next.currentHeight = state.currentHeight ∧ next.blocks = state.blocks ∧
              next.receiptCache = state.receiptCache := by
            simp only [ChainStateV2.submitBundle, bind_eq_ok, pure_eq_ok] at submitted
            obtain ⟨_, _, _, _, rfl⟩ := submitted
            exact ⟨rfl, rfl, rfl⟩
          simpa only [ChainStateV2.step, submitted] using unchanged
  | buildBlock timestamp proposerSig consensusExtra limit =>
      right
      have committed := wellFormed.committed_builtBlock timestamp proposerSig consensusExtra limit
      refine ⟨_, committed, rfl, rfl, rfl, ?_⟩
      rw [← committed.receiptCache_nextState, ChainStateV2.step, ChainStateV2.buildBlock,
        executeSubmissions_eq]
      rfl
  | applyBlock block =>
      by_cases accepted : state.BlockAccepted block
      · right
        refine ⟨block, accepted.committed, accepted.height, ?_, ?_, ?_⟩
        · rw [step_applyBlock accepted]
          rfl
        · rw [step_applyBlock accepted]
          rfl
        · rw [step_applyBlock accepted]
          exact accepted.committed.receiptCache_nextState
      · left
        obtain ⟨message, raised⟩ := applyBlock_of_not_accepted accepted
        simp only [ChainStateV2.step, raised, and_self]

/-! ## Runs -/

/-- What the blocks of a run add to the cache, in order. -/
def receiptLog (state : ChainStateV2 H) : List (ChainAction H) → List (CachedBlock H)
  | [] => []
  | action :: rest =>
      ((state.step action).blocks.drop state.blocks.length).map state.cachedBlock ++
        receiptLog (state.step action) rest

theorem receiptLog_applyBlock {state : ChainStateV2 H} {block : BlockV2 H}
    (accepted : state.BlockAccepted block) (rest : List (ChainAction H)) :
    state.receiptLog (.applyBlock block :: rest) =
      state.cachedBlock block :: (state.nextState block).receiptLog rest := by
  have blocks_eq : (state.nextState block).blocks = state.blocks ++ [block] := rfl
  rw [receiptLog, step_applyBlock accepted, blocks_eq, List.drop_left]
  rfl

/-- What holds of a state and of everything its run has added to the cache. -/
structure Logged (size : ℕ) (state : ChainStateV2 H) (log : List (CachedBlock H)) : Prop where
  wellFormed : state.WellFormed
  heights : ∀ block ∈ log, block.height ≤ state.currentHeight
  increasing : (log.map CachedBlock.height).Pairwise (· < ·)
  consistent : ∀ block ∈ log, block.Consistent
  senderSeqs : log.flatMap CachedBlock.senderSeqs = state.blocks.flatMap confirmedSeqs
  refsNodup : (log.flatMap CachedBlock.refs).Nodup
  blockHashes : ∀ block ∈ log, ∀ ref ∈ block.refs,
    ∃ version chainId prevBlockHash timestamp proposerSig consensusExtra entries,
      deriveBlockHash version chainId block.height prevBlockHash timestamp proposerSig
        consensusExtra entries = ref.blockHash
  maxBlocks : state.receiptCache.maxBlocks = size
  shows : (state.blocks.flatMap confirmedSeqs).Nodup →
    state.receiptCache.Shows (ReceiptCache.window size log) []

section Runs

variable {size : ℕ} {state next : ChainStateV2 H} {log : List (CachedBlock H)} {block : BlockV2 H}

theorem Logged.refs_disjoint (ideal : IdealHash H) (logged : Logged size state log)
    (extended : Extended state next block) :
    List.Disjoint (log.flatMap CachedBlock.refs) (state.cachedBlock block).refs := by
  intro ref earlier_mem new_mem
  obtain ⟨earlier, logged_mem, ref_mem⟩ := List.mem_flatMap.mp earlier_mem
  obtain ⟨_, _, _, _, _, _, _, earlier_hash⟩ := logged.blockHashes earlier logged_mem ref ref_mem
  obtain ⟨_, _, _, _, _, _, new_hash⟩ := extended.committed.blockHash
  have block_hash := extended.committed.blockHash_of_mem_refs new_mem
  have same := earlier_hash.trans (block_hash.trans new_hash.symm)
  have height_eq := (deriveBlockHash_injective ideal same).1
  have height_le := logged.heights earlier logged_mem
  have height_new := extended.height
  omega

/-- A new block joins the log and the cache. -/
theorem Logged.extend (ideal : IdealHash H) (positive : 0 < size) (logged : Logged size state log)
    (extended : Extended state next block) (wellFormed : next.WellFormed) :
    Logged size next (log ++ [state.cachedBlock block]) := by
  have above : ∀ earlier ∈ log, earlier.height < (state.cachedBlock block).height := by
    intro earlier member
    have height_le := logged.heights earlier member
    have height_new : (state.cachedBlock block).height = state.currentHeight + 1 := extended.height
    omega
  have increasing : ((log ++ [state.cachedBlock block]).map CachedBlock.height).Pairwise
      (· < ·) := by
    rw [List.map_append, List.pairwise_append]
    refine ⟨logged.increasing, List.pairwise_singleton _ _, ?_⟩
    intro height height_mem new_height new_mem
    obtain ⟨earlier, member, rfl⟩ := List.mem_map.mp height_mem
    rw [List.mem_singleton.mp new_mem]
    exact above earlier member
  have senderSeqs : (log ++ [state.cachedBlock block]).flatMap CachedBlock.senderSeqs =
      next.blocks.flatMap confirmedSeqs := by
    rw [extended.blocks, List.flatMap_append, List.flatMap_append, logged.senderSeqs,
      List.flatMap_singleton, List.flatMap_singleton, extended.committed.senderSeqs_cachedBlock]
  have refsNodup : ((log ++ [state.cachedBlock block]).flatMap CachedBlock.refs).Nodup := by
    rw [List.flatMap_append, List.flatMap_singleton]
    exact logged.refsNodup.append (extended.committed.nodup_refs ideal)
      (logged.refs_disjoint ideal extended)
  exact
    { wellFormed := wellFormed
      heights := by
        intro earlier member
        rw [extended.nextHeight]
        rcases List.mem_append.mp member with member | member
        · exact (above earlier member).le
        · rw [List.mem_singleton.mp member]
          exact le_rfl
      increasing := increasing
      consistent := by
        intro earlier member
        rcases List.mem_append.mp member with member | member
        · exact logged.consistent earlier member
        · rw [List.mem_singleton.mp member]
          exact state.consistent_cachedBlock block
      senderSeqs := senderSeqs
      refsNodup := refsNodup
      blockHashes := by
        intro earlier member ref ref_mem
        rcases List.mem_append.mp member with member | member
        · exact logged.blockHashes earlier member ref ref_mem
        · rw [List.mem_singleton.mp member] at ref_mem ⊢
          obtain ⟨_, _, _, _, _, _, hash_eq⟩ := extended.committed.blockHash
          rw [extended.committed.blockHash_of_mem_refs ref_mem, ← hash_eq]
          exact ⟨_, _, _, _, _, _, _, rfl⟩
      maxBlocks := by rw [extended.cache, ReceiptCache.maxBlocks_addBlock, logged.maxBlocks]
      shows := by
        intro seqs_nodup
        have earlier_nodup : (state.blocks.flatMap confirmedSeqs).Nodup := by
          rw [extended.blocks, List.flatMap_append] at seqs_nodup
          exact (List.nodup_append.mp seqs_nodup).1
        have shows := logged.shows earlier_nodup
        rw [← logged.maxBlocks] at shows positive ⊢
        rw [extended.cache]
        rw [← senderSeqs] at seqs_nodup
        exact shows.window_step positive (state.consistent_cachedBlock block) increasing seqs_nodup
          refsNodup }

theorem Logged.step (ideal : IdealHash H) (positive : 0 < size) (logged : Logged size state log)
    (action : ChainAction H) :
    Logged size (state.step action)
      (log ++ ((state.step action).blocks.drop state.blocks.length).map state.cachedBlock) := by
  have wellFormed := logged.wellFormed.step action
  rcases logged.wellFormed.step_cases action with ⟨height_eq, blocks_eq, cache_eq⟩ |
    ⟨block, extended⟩
  · have no_blocks : (state.step action).blocks.drop state.blocks.length = [] := by
      rw [blocks_eq, List.drop_length]
    rw [no_blocks, List.map_nil, List.append_nil]
    exact
      { logged with
        wellFormed := wellFormed
        heights := by
          rw [height_eq]
          exact logged.heights
        senderSeqs := by rw [blocks_eq, logged.senderSeqs]
        maxBlocks := by rw [cache_eq, logged.maxBlocks]
        shows := by
          rw [blocks_eq, cache_eq]
          exact logged.shows }
  · have one_block : (state.step action).blocks.drop state.blocks.length = [block] := by
      rw [extended.blocks, List.drop_left]
    rw [one_block, List.map_singleton]
    exact logged.extend ideal positive extended wellFormed

/-- A run keeps what is known of the log, whatever its calls are. -/
theorem Logged.run (ideal : IdealHash H) (positive : 0 < size) (logged : Logged size state log)
    (actions : List (ChainAction H)) :
    Logged size (state.run actions) (log ++ state.receiptLog actions) := by
  induction actions generalizing state log with
  | nil =>
      rw [receiptLog, List.append_nil]
      exact logged
  | cons action rest induction =>
      rw [receiptLog, ← List.append_assoc]
      exact induction (logged.step ideal positive action)

omit [DecidableEq H] in
theorem logged_new (version chainId receiptCacheBlocks maxBundleBytes maxTxPerBundle
    maxValueEntriesPerTx : ℕ) (genesisBlockHash : H) :
    Logged (max 1 receiptCacheBlocks) (new version chainId receiptCacheBlocks maxBundleBytes
      maxTxPerBundle maxValueEntriesPerTx genesisBlockHash : ChainStateV2 H) [] where
  wellFormed := wellFormed_new _ _ _ _ _ _ _
  heights := by nofun
  increasing := .nil
  consistent := by nofun
  senderSeqs := rfl
  refsNodup := .nil
  blockHashes := by nofun
  maxBlocks := rfl
  shows _ := by
    have no_blocks : ReceiptCache.window (max 1 receiptCacheBlocks) ([] : List (CachedBlock H)) =
        [] := List.rtake_nil _
    rw [no_blocks]
    exact ⟨rfl, rfl, rfl, rfl, rfl⟩

end Runs

/-! ## The window of a run -/

/-- In every run in which no sender confirms a seq twice, the cache holds exactly the receipts and
proof batches of the last non-empty blocks, and every receipt it returns comes with the batch of its
block. -/
theorem receiptCache_window (ideal : IdealHash H) (version chainId receiptCacheBlocks maxBundleBytes
    maxTxPerBundle maxValueEntriesPerTx : ℕ) (genesisBlockHash : H)
    (actions : List (ChainAction H)) :
    let initial : ChainStateV2 H := new version chainId receiptCacheBlocks maxBundleBytes
      maxTxPerBundle maxValueEntriesPerTx genesisBlockHash
    let final := initial.run actions
    (final.blocks.flatMap confirmedSeqs).Nodup →
      final.receiptCache.maxBlocks = max 1 receiptCacheBlocks ∧
      final.receiptCache.Holds
        (ReceiptCache.window final.receiptCache.maxBlocks (initial.receiptLog actions)) ∧
      (∀ senderAddr seq receipt, final.receiptCache.getReceipt senderAddr seq = some receipt →
        ∃ batch, final.receiptCache.getProofBatch
            ⟨receipt.headerLite.height, receipt.headerLite.blockHash⟩ = some batch ∧
          batch.stateRoot = receipt.headerLite.stateRoot) ∧
      (∀ ref receipt, final.receiptCache.getReceiptByRef ref = some receipt →
        ∃ batch, final.receiptCache.getProofBatch
            ⟨receipt.headerLite.height, receipt.headerLite.blockHash⟩ = some batch ∧
          batch.stateRoot = receipt.headerLite.stateRoot) := by
  intro initial final once
  have logged := (logged_new version chainId receiptCacheBlocks maxBundleBytes maxTxPerBundle
    maxValueEntriesPerTx genesisBlockHash).run ideal (by omega) actions
  rw [List.nil_append] at logged
  have holds := (logged.shows once).holds
  have consistent : ∀ block ∈ ReceiptCache.window (max 1 receiptCacheBlocks)
      (initial.receiptLog actions), block.Consistent := fun block member =>
    logged.consistent block ((ReceiptCache.window_sublist _ _).mem member)
  refine ⟨logged.maxBlocks, ?_, ?_, ?_⟩
  · rw [logged.maxBlocks]
    exact holds
  · intro senderAddr seq receipt found
    obtain ⟨block, block_mem, ref, item_mem, _⟩ := (holds.receipt_iff _ _ _).mp found
    exact holds.proofBatch_of_header block_mem (consistent block block_mem) item_mem
  · intro ref receipt found
    obtain ⟨block, block_mem, senderAddr, item_mem⟩ := (holds.receiptByRef_iff _ _).mp found
    exact holds.proofBatch_of_header block_mem (consistent block block_mem) item_mem

section TwoBundles

open SymbolicDigest

/-- The chain before its first block, with a cache of one block. -/
abbrev smallGenesis : ChainStateV2 SymbolicDigest := .new 2 1 1 32768 128 64 (filled 0)

abbrev aliceBlock : BlockV2 SymbolicDigest := smallGenesis.peerBlock 1 firstEntry

def afterAlice : ChainStateV2 SymbolicDigest := smallGenesis.nextState aliceBlock

abbrev bobBlock : BlockV2 SymbolicDigest := afterAlice.peerBlock 2 bobEntry

theorem aliceBlock_accepted : smallGenesis.BlockAccepted aliceBlock := by
  apply peerBlock_accepted
  exact
    { signer := rfl
      bundleHash := rfl
      claimSet := .inl rfl
      signature := by decide
      notExpired := by decide
      prevRef := rfl
      seq := by decide
      known := by decide }

theorem bobBlock_accepted : afterAlice.BlockAccepted bobBlock := by
  apply peerBlock_accepted
  exact
    { signer := rfl
      bundleHash := rfl
      claimSet := .inl rfl
      signature := by decide
      notExpired := by decide
      prevRef := rfl
      seq := by decide
      known := by rintro leaf ⟨⟩ }

theorem run_twoBlocks :
    smallGenesis.run [.applyBlock aliceBlock, .applyBlock bobBlock] =
      afterAlice.nextState bobBlock := by
  have after : smallGenesis.nextState aliceBlock = afterAlice := rfl
  rw [run_applyBlock aliceBlock_accepted, after, run_applyBlock bobBlock_accepted]
  rfl

theorem receiptLog_twoBlocks :
    smallGenesis.receiptLog [.applyBlock aliceBlock, .applyBlock bobBlock] =
      [smallGenesis.cachedBlock aliceBlock, afterAlice.cachedBlock bobBlock] := by
  have after : smallGenesis.nextState aliceBlock = afterAlice := rfl
  rw [receiptLog_applyBlock aliceBlock_accepted, after, receiptLog_applyBlock bobBlock_accepted]
  rfl

/-- The cache of one block has dropped Alice's block and holds Bob's. -/
theorem receiptCache_window_pruned :
    (smallGenesis.receiptLog [.applyBlock aliceBlock, .applyBlock bobBlock]).length = 2 ∧
      (smallGenesis.run [.applyBlock aliceBlock, .applyBlock bobBlock]).receiptCache.Holds
        [afterAlice.cachedBlock bobBlock] := by
  have blocks_eq : (smallGenesis.run [.applyBlock aliceBlock, .applyBlock bobBlock]).blocks =
      [aliceBlock, bobBlock] := congrArg blocks run_twoBlocks
  have once : ((smallGenesis.run [.applyBlock aliceBlock, .applyBlock bobBlock]).blocks.flatMap
      confirmedSeqs).Nodup := by
    have seqs_eq : [aliceBlock, bobBlock].flatMap confirmedSeqs = [(alice, 1), (bob, 1)] := rfl
    rw [blocks_eq, seqs_eq]
    decide
  obtain ⟨size, holds, -⟩ := receiptCache_window idealHash 2 1 1 32768 128 64 (filled 0)
    [.applyBlock aliceBlock, .applyBlock bobBlock] once
  rw [size, receiptLog_twoBlocks] at holds
  refine ⟨?_, holds⟩
  rw [receiptLog_twoBlocks]
  rfl

end TwoBundles

end ChainStateV2

end EZChain
