import EZChain.Chain.Replay

/-!
# Failed saves

A node extends its chain in memory before it saves the block, and nothing takes the extension back
when the save raises.  From then on the chain is ahead of the store, and the next block that is
saved leaves a gap over which the store cannot be loaded.
-/

namespace EZChain

open Checks

variable {H : Type}

/-- A call that extends the chain of a node. -/
inductive NodeCall (H : Type) where
  | produceBlock (timestamp : ℕ) (proposerSig consensusExtra : Bytes) (limit : Option ℤ)
  | applyBlock (block : BlockV2 H)

section Calls

variable [Crypto H] [DecidableEq H]

/-- The part of a call before the save: the block with its receipts, and the chain in memory. -/
def NodeCall.extend (chain : ChainStateV2 H) :
    NodeCall H → Except String (BlockV2 H × OrderedDict Address (Receipt H)) × ChainStateV2 H
  | .produceBlock timestamp proposerSig consensusExtra limit =>
      if chain.bundlePool.snapshot limit = [] then
        (.error "no pending bundles to package", chain)
      else
        let built := chain.buildBlock timestamp proposerSig consensusExtra limit
        (.ok built.1, built.2)
  | .applyBlock block =>
      match chain.applyBlock block with
      | (.error message, next) => (.error message, next)
      | (.ok receipts, next) => (.ok (block, receipts), next)

namespace ConsensusNode

/-- `save_applied_block` on a storage engine that may raise before it commits. -/
def saveOn (node : ConsensusNode H) (storage : Except String Unit) (chain : ChainStateV2 H)
    (block : BlockV2 H) (receipts : OrderedDict Address (Receipt H)) :
    Except String (ConsensusStateStore H) := do
  storage
  node.save chain block receipts

/-- `produce_block` or `apply_block`: the saved block or the error, and the node afterwards. -/
def call (node : ConsensusNode H) (storage : Except String Unit) (request : NodeCall H) :
    Except String (BlockV2 H) × ConsensusNode H :=
  match request.extend node.chain with
  | (.error message, chain) => (.error message, { node with chain := chain })
  | (.ok (block, receipts), chain) =>
      match node.saveOn storage chain block receipts with
      | .error message => (.error message, { node with chain := chain })
      | .ok store => (.ok block, { node with chain := chain, store := store })

/-- The call extends the chain and its save raises. -/
def SaveRaises (node : ConsensusNode H) (storage : Except String Unit) (request : NodeCall H) :
    Prop :=
  ∃ block receipts chain message, request.extend node.chain = (.ok (block, receipts), chain) ∧
    node.saveOn storage chain block receipts = .error message

/-- `V2ConsensusNode(...)` on the store of a stopped node; a node whose store cannot be loaded does
not start. -/
def restart (chainId receiptCacheBlocks : ℕ) (genesisBlockHash : H) (node : ConsensusNode H) :
    ConsensusNode H :=
  match node.store.loadChainState 2 chainId receiptCacheBlocks genesisBlockHash with
  | .error _ => node
  | .ok chain =>
      { node with
        chain := chain
        genesisBlockHash := (node.store.metadata.map
          ConsensusStateMetadata.genesisBlockHash).getD genesisBlockHash }

/-- What happens to a node, with the outcome of the storage engine. -/
inductive Event (H : Type) where
  | submitBundle (submission : BundleSubmission H)
  | call (storage : Except String Unit) (request : NodeCall H)
  | restart

/-- The node after an event. -/
def handle (chainId receiptCacheBlocks : ℕ) (genesisBlockHash : H) (node : ConsensusNode H) :
    Event H → ConsensusNode H
  | .submitBundle submission =>
      match node.chain.submitBundle submission with
      | .error _ => node
      | .ok chain => { node with chain := chain }
  | .call storage request => (node.call storage request).2
  | .restart => node.restart chainId receiptCacheBlocks genesisBlockHash

/-- The node that opened an empty store, after some events. -/
def after (chainId receiptCacheBlocks : ℕ) (genesisBlockHash : H) (events : List (Event H)) :
    ConsensusNode H :=
  events.foldl (handle chainId receiptCacheBlocks genesisBlockHash)
    (new chainId receiptCacheBlocks genesisBlockHash)

/-- The chain in memory is the chain that the store is loaded to, up to the pool. -/
def MemoryAgrees (chainId receiptCacheBlocks : ℕ) (genesisBlockHash : H) (node : ConsensusNode H) :
    Prop :=
  ∃ loaded, node.store.loadChainState 2 chainId receiptCacheBlocks genesisBlockHash = .ok loaded ∧
    loaded.SameLedger node.chain

/-! ## Heights -/

section Heights

theorem heights_applyBlocks {initial final : ChainStateV2 H} {blocks : List (BlockV2 H)}
    (applied : initial.applyBlocks blocks = .ok final) :
    blocks.map (fun block => block.header.height) =
        List.range' (initial.currentHeight + 1) blocks.length ∧
      final.currentHeight = initial.currentHeight + blocks.length := by
  refine ChainStateV2.applyBlocks_induction (motive := fun blocks state =>
    blocks.map (fun block => block.header.height) =
        List.range' (initial.currentHeight + 1) blocks.length ∧
      state.currentHeight = initial.currentHeight + blocks.length) ⟨rfl, rfl⟩ ?_ applied
  rintro blocks state block _ ⟨heights_eq, height_eq⟩ accepted
  have block_height := accepted.height
  have next_height : (state.nextState block).currentHeight = block.header.height := rfl
  constructor
  · have last_eq : block.header.height = initial.currentHeight + 1 + 1 * blocks.length := by omega
    rw [List.map_append, heights_eq, List.length_append, List.length_singleton,
      List.range'_concat, ← last_eq]
    rfl
  · rw [next_height, block_height, height_eq, List.length_append, List.length_singleton]
    omega

/-- A store that is loaded has no metadata row, or one block for each height up to the recorded
one. -/
theorem loaded_heights {store : ConsensusStateStore H} {chainId receiptCacheBlocks : ℕ}
    {genesisBlockHash : H} {loaded : ChainStateV2 H}
    (load : store.loadChainState 2 chainId receiptCacheBlocks genesisBlockHash = .ok loaded) :
    (store.metadata = none ∧ loaded.currentHeight = 0) ∨
      ∃ metadata, store.metadata = some metadata ∧
        loaded.currentHeight = metadata.currentHeight ∧
        store.listBlocks.map (fun block => block.header.height) =
          List.range' 1 metadata.currentHeight := by
  rw [ConsensusStateStore.loadChainState] at load
  cases metadata_eq : store.metadata with
  | none =>
      simp only [metadata_eq, Except.ok.injEq] at load
      rw [← load]
      exact .inl ⟨rfl, rfl⟩
  | some metadata =>
      simp only [metadata_eq, bind_eq_ok, require_eq_ok, exists_const, pure_eq_ok] at load
      obtain ⟨_, _, chain, applied, height_eq, _, _, rfl⟩ := load
      obtain ⟨heights_eq, final_eq⟩ := heights_applyBlocks applied
      have length_eq : store.listBlocks.length = metadata.currentHeight := by
        rw [← height_eq, final_eq]
        exact (Nat.zero_add _).symm
      rw [length_eq] at heights_eq
      exact .inr ⟨metadata, rfl, height_eq, heights_eq⟩

/-- A call that reaches the save has extended the chain by one block. -/
theorem height_extend {request : NodeCall H} {chain next : ChainStateV2 H} {block : BlockV2 H}
    {receipts : OrderedDict Address (Receipt H)}
    (extended : request.extend chain = (.ok (block, receipts), next)) :
    block.header.height = chain.currentHeight + 1 ∧
      next.currentHeight = chain.currentHeight + 1 := by
  cases request with
  | produceBlock timestamp proposerSig consensusExtra limit =>
      simp only [NodeCall.extend] at extended
      split at extended
      · cases extended
      · obtain ⟨built_eq, rfl⟩ := Prod.mk.inj extended
        obtain ⟨rfl, _⟩ := Prod.mk.inj (Except.ok.inj built_eq)
        exact ⟨rfl, rfl⟩
  | applyBlock block =>
      simp only [NodeCall.extend] at extended
      split at extended
      · cases extended
      · next receipts next applied =>
          obtain ⟨pair_eq, rfl⟩ := Prod.mk.inj extended
          obtain ⟨rfl, rfl⟩ := Prod.mk.inj (Except.ok.inj pair_eq)
          obtain ⟨accepted, _, rfl⟩ := (ChainStateV2.applyBlock_eq_ok_iff _ _ _ _).mp applied
          exact ⟨accepted.height, accepted.height⟩

theorem chain_of_extend_error {request : NodeCall H} {chain next : ChainStateV2 H}
    {message : String} (raised : request.extend chain = (.error message, next)) : next = chain := by
  cases request with
  | produceBlock timestamp proposerSig consensusExtra limit =>
      simp only [NodeCall.extend] at raised
      split at raised
      · exact (Prod.mk.inj raised).2.symm
      · cases raised
  | applyBlock block =>
      simp only [NodeCall.extend] at raised
      split at raised
      · next failed next applied =>
          obtain ⟨_, rfl⟩ := Prod.mk.inj raised
          by_cases accepted : chain.BlockAccepted block
          · rw [ChainStateV2.applyBlock_of_accepted accepted] at applied
            cases applied
          · obtain ⟨_, rejected⟩ := ChainStateV2.applyBlock_of_not_accepted accepted
            exact (Prod.mk.inj (applied.symm.trans rejected)).2
      · cases raised

end Heights

/-! ## The store follows the chain -/

/-- The store holds blocks and metadata of heights that the chain has reached. -/
structure StoreBehind (node : ConsensusNode H) : Prop where
  keyed : ∀ entry ∈ node.store.blocks.entries, entry.1 = entry.2.header.height
  empty : node.store.metadata = none → node.store.blocks.keys = []
  stored : ∀ height ∈ node.store.blocks.keys, height ≤ node.chain.currentHeight
  metadata : ∀ metadata ∈ node.store.metadata, metadata.currentHeight ≤ node.chain.currentHeight

section Behind

variable {node : ConsensusNode H} {chainId receiptCacheBlocks : ℕ} {genesisBlockHash : H}

omit [Crypto H] [DecidableEq H] in
theorem storeBehind_new (chainId receiptCacheBlocks : ℕ) (genesisBlockHash : H) :
    (new chainId receiptCacheBlocks genesisBlockHash).StoreBehind where
  keyed := List.forall_mem_nil _
  empty := fun _ => rfl
  stored := List.forall_mem_nil _
  metadata := forall_mem_none _

omit [Crypto H] [DecidableEq H] in
/-- A higher chain stays ahead of the store. -/
theorem StoreBehind.raise (behind : node.StoreBehind) {chain : ChainStateV2 H}
    (height_le : node.chain.currentHeight ≤ chain.currentHeight) :
    StoreBehind { node with chain := chain } where
  keyed := behind.keyed
  empty := behind.empty
  stored height mem := (behind.stored height mem).trans height_le
  metadata row mem := (behind.metadata row mem).trans height_le

theorem StoreBehind.loaded_le (behind : node.StoreBehind) {loaded : ChainStateV2 H}
    (load : node.store.loadChainState 2 chainId receiptCacheBlocks genesisBlockHash = .ok loaded) :
    loaded.currentHeight ≤ node.chain.currentHeight := by
  rcases loaded_heights load with ⟨_, height_eq⟩ | ⟨metadata, metadata_eq, height_eq, _⟩
  · omega
  · rw [height_eq]
    exact behind.metadata metadata metadata_eq

omit [Crypto H] in
/-- A save adds the row of the block and the metadata of its height. -/
theorem StoreBehind.saved (behind : node.StoreBehind) {storage : Except String Unit}
    {chain : ChainStateV2 H} {block : BlockV2 H} {receipts : OrderedDict Address (Receipt H)}
    {store : ConsensusStateStore H} (height_eq : block.header.height = chain.currentHeight)
    (height_le : node.chain.currentHeight ≤ chain.currentHeight)
    (saved : node.saveOn storage chain block receipts = .ok store) :
    StoreBehind { node with chain := chain, store := store } := by
  simp only [saveOn, bind_eq_ok, exists_unit] at saved
  obtain ⟨_, saved⟩ := saved
  obtain ⟨fresh, blocks_eq, metadata_eq⟩ := save_eq_ok saved
  have entries_eq : store.blocks.entries =
      node.store.blocks.entries ++ [(block.header.height, block)] := by
    rw [blocks_eq]
    exact node.store.blocks.entries_set_of_notMem fresh block
  refine ⟨?_, fun none_eq => ?_, ?_, fun row mem => ?_⟩
  · intro entry mem
    rw [entries_eq, List.mem_append, List.mem_singleton] at mem
    rcases mem with mem | rfl
    · exact behind.keyed entry mem
    · rfl
  · rw [metadata_eq] at none_eq
    cases none_eq
  · intro height mem
    rw [blocks_eq, OrderedDict.mem_keys_set] at mem
    rcases mem with rfl | mem
    · exact height_eq.le
    · exact (behind.stored height mem).trans height_le
  · rw [metadata_eq, Option.mem_some_iff] at mem
    rw [← mem]
    exact height_eq.le

theorem StoreBehind.call (behind : node.StoreBehind) (storage : Except String Unit)
    (request : NodeCall H) : (node.call storage request).2.StoreBehind := by
  rw [ConsensusNode.call]
  split
  · next message chain raised =>
      rw [chain_of_extend_error raised]
      exact behind
  · next block receipts chain extended =>
      obtain ⟨block_height, chain_height⟩ := height_extend extended
      split
      · exact behind.raise (by omega)
      · next store saved =>
          exact behind.saved (block_height.trans chain_height.symm) (by omega) saved

theorem StoreBehind.restart (behind : node.StoreBehind) :
    (node.restart chainId receiptCacheBlocks genesisBlockHash).StoreBehind := by
  rw [ConsensusNode.restart]
  split
  · exact behind
  · next chain load =>
      rcases loaded_heights load with ⟨none_eq, _⟩ | ⟨metadata, metadata_eq, height_eq, heights⟩
      · refine ⟨behind.keyed, behind.empty, ?_, ?_⟩
        · simp only [behind.empty none_eq]
          exact List.forall_mem_nil _
        · simp only [none_eq]
          exact forall_mem_none _
      · refine ⟨behind.keyed, behind.empty, fun height mem => ?_, fun row mem => ?_⟩
        · obtain ⟨entry, entry_mem, rfl⟩ := List.mem_map.mp mem
          have listed : entry.2 ∈ node.store.listBlocks :=
            List.mem_map_of_mem ((List.perm_insertionSort _ _).mem_iff.mpr entry_mem)
          have in_range := List.mem_map_of_mem (f := fun block => block.header.height) listed
          rw [heights, List.mem_range'_1, ← behind.keyed entry entry_mem] at in_range
          change entry.1 ≤ chain.currentHeight
          omega
        · have row_eq := Option.some.inj (metadata_eq.symm.trans mem)
          rw [← row_eq]
          exact height_eq.ge

theorem StoreBehind.handle (behind : node.StoreBehind) (event : Event H) :
    (node.handle chainId receiptCacheBlocks genesisBlockHash event).StoreBehind := by
  cases event with
  | submitBundle submission =>
      cases submitted : node.chain.submitBundle submission with
      | error message => simpa only [ConsensusNode.handle, submitted] using behind
      | ok chain =>
          simp only [ConsensusNode.handle, submitted]
          obtain ⟨pool, rfl⟩ := ChainStateV2.sameLedger_submitBundle submitted
          exact behind.raise le_rfl
  | call storage request => exact behind.call storage request
  | restart => exact behind.restart

theorem storeBehind_after (chainId receiptCacheBlocks : ℕ) (genesisBlockHash : H)
    (events : List (Event H)) :
    (after chainId receiptCacheBlocks genesisBlockHash events).StoreBehind := by
  induction events using List.reverseRecOn with
  | nil => exact storeBehind_new chainId receiptCacheBlocks genesisBlockHash
  | append_singleton events event induction =>
      rw [after, List.foldl_append, ← after]
      exact induction.handle event

end Behind

/-! ## After a failed save -/

section Failed

variable {node : ConsensusNode H} {chainId receiptCacheBlocks : ℕ} {genesisBlockHash : H}

/-- A failed save leaves the store and keeps the extended chain. -/
theorem SaveRaises.call {storage : Except String Unit} {request : NodeCall H}
    (raises : node.SaveRaises storage request) :
    (node.call storage request).2.store = node.store ∧
      (node.call storage request).2.chain.currentHeight = node.chain.currentHeight + 1 := by
  obtain ⟨block, receipts, chain, message, extended, raised⟩ := raises
  rw [ConsensusNode.call]
  rw [extended]
  simp only [raised, true_and]
  exact (height_extend extended).2

theorem saveRaises_of_accepted {block : BlockV2 H} (accepted : node.chain.BlockAccepted block)
    (message : String) : node.SaveRaises (.error message) (.applyBlock block) := by
  refine ⟨block, node.chain.blockReceipts block, node.chain.nextState block, message, ?_, rfl⟩
  simp only [NodeCall.extend, ChainStateV2.applyBlock_of_accepted accepted]

theorem chain_call_of_accepted {block : BlockV2 H} (accepted : node.chain.BlockAccepted block)
    (storage : Except String Unit) :
    (node.call storage (.applyBlock block)).2.chain = node.chain.nextState block := by
  simp only [ConsensusNode.call, NodeCall.extend, ChainStateV2.applyBlock_of_accepted accepted]
  split <;> rfl

theorem call_eq_ok {storage : Except String Unit} {request : NodeCall H} {block : BlockV2 H}
    (saved : (node.call storage request).1 = .ok block) :
    ∃ receipts chain store, request.extend node.chain = (.ok (block, receipts), chain) ∧
      node.save chain block receipts = .ok store ∧
      (node.call storage request).2 = { node with chain := chain, store := store } := by
  unfold ConsensusNode.call at saved ⊢
  split at saved
  · cases saved
  · next made receipts chain extended =>
      split at saved
      · cases saved
      · next store stored =>
          cases saved
          simp only [saveOn, bind_eq_ok, exists_unit] at stored
          exact ⟨receipts, chain, store, extended, stored.2, rfl⟩

theorem not_loaded_of_gap {store : ConsensusStateStore H} {metadata : ConsensusStateMetadata H}
    (keyed : ∀ entry ∈ store.blocks.entries, entry.1 = entry.2.header.height)
    (metadata_eq : store.metadata = some metadata) {height : ℕ} (height_pos : 0 < height)
    (height_lt : height < metadata.currentHeight) (gap : height ∉ store.blocks.keys)
    (loaded : ChainStateV2 H) :
    store.loadChainState 2 chainId receiptCacheBlocks genesisBlockHash ≠ .ok loaded := by
  intro load
  rcases loaded_heights load with ⟨none_eq, _⟩ | ⟨row, row_eq, _, heights⟩
  · rw [metadata_eq] at none_eq
    cases none_eq
  · obtain rfl := Option.some.inj (metadata_eq.symm.trans row_eq)
    have in_range : height ∈ store.listBlocks.map fun block => block.header.height := by
      rw [heights, List.mem_range'_1]
      omega
    obtain ⟨block, listed, rfl⟩ := List.mem_map.mp in_range
    obtain ⟨entry, entry_mem, rfl⟩ := List.mem_map.mp listed
    have stored := (List.perm_insertionSort _ _).mem_iff.mp entry_mem
    rw [← keyed entry stored] at gap
    exact gap (List.mem_map_of_mem stored)

/-- Once the chain is ahead of the store, a saved block leaves a store that cannot be loaded. -/
theorem not_loaded_of_ahead (behind : node.StoreBehind)
    (ahead : ∀ height ∈ node.store.blocks.keys, height < node.chain.currentHeight)
    (height_pos : 0 < node.chain.currentHeight) {storage : Except String Unit}
    {request : NodeCall H} {block : BlockV2 H}
    (saved : (node.call storage request).1 = .ok block) (loaded : ChainStateV2 H) :
    (node.call storage request).2.store.loadChainState 2 chainId receiptCacheBlocks
      genesisBlockHash ≠ .ok loaded := by
  have behind_next := behind.call storage request
  obtain ⟨receipts, chain, store, extended, stored, call_eq⟩ := call_eq_ok saved
  have block_height := (height_extend extended).1
  obtain ⟨_, blocks_eq, metadata_eq⟩ := save_eq_ok stored
  rw [call_eq] at behind_next ⊢
  refine not_loaded_of_gap behind_next.keyed metadata_eq height_pos ?_ ?_ loaded
  · change node.chain.currentHeight < block.header.height
    omega
  · change node.chain.currentHeight ∉ store.blocks.keys
    rw [blocks_eq, OrderedDict.mem_keys_set]
    rintro (height_eq | mem)
    · omega
    · exact (ahead _ mem).false

theorem SaveRaises.not_memoryAgrees (behind : node.StoreBehind) {storage : Except String Unit}
    {request : NodeCall H} (raises : node.SaveRaises storage request) :
    ¬ (node.call storage request).2.MemoryAgrees chainId receiptCacheBlocks genesisBlockHash := by
  rintro ⟨loaded, load, same⟩
  obtain ⟨store_eq, height_eq⟩ := raises.call
  rw [store_eq] at load
  have loaded_le := behind.loaded_le load
  have same_height := same.currentHeight
  omega

end Failed

/-- After a failed save the chain in memory is not the chain that the store is loaded to, the
same block is refused when it is applied again, and the next block that is saved leaves a store
that cannot be loaded. -/
theorem failedSave_diverges (chainId receiptCacheBlocks : ℕ) (genesisBlockHash : H)
    (events : List (Event H)) (storage : Except String Unit) (request : NodeCall H)
    (raises : (after chainId receiptCacheBlocks genesisBlockHash events).SaveRaises storage
      request) :
    let failed :=
      ((after chainId receiptCacheBlocks genesisBlockHash events).call storage request).2
    ¬ failed.MemoryAgrees chainId receiptCacheBlocks genesisBlockHash ∧
      (∀ block, request = .applyBlock block →
        ∃ message, failed.chain.applyBlock block = (.error message, failed.chain)) ∧
      ∀ again later block, (failed.call again later).1 = .ok block →
        ∀ loaded, (failed.call again later).2.store.loadChainState 2 chainId receiptCacheBlocks
          genesisBlockHash ≠ .ok loaded := by
  intro failed
  have behind := storeBehind_after chainId receiptCacheBlocks genesisBlockHash events
  obtain ⟨store_eq, height_eq⟩ := raises.call
  refine ⟨raises.not_memoryAgrees behind, ?_, ?_⟩
  · rintro block rfl
    apply ChainStateV2.applyBlock_of_not_accepted
    intro accepted
    obtain ⟨_, _, _, _, extended, _⟩ := raises
    have again := accepted.height
    change block.header.height = ((after chainId receiptCacheBlocks genesisBlockHash events).call
      storage (.applyBlock block)).2.chain.currentHeight + 1 at again
    have first := (height_extend extended).1
    simp only [NodeCall.extend] at extended
    split at extended
    · cases extended
    · obtain ⟨rfl, _⟩ := Prod.mk.inj (Except.ok.inj (Prod.mk.inj extended).1)
      omega
  · intro again later block saved loaded
    refine not_loaded_of_ahead (behind.call storage request) ?_ ?_ saved loaded
    · intro height mem
      rw [store_eq] at mem
      have height_le := behind.stored height mem
      omega
    · omega

section Examples

open SymbolicDigest

theorem firstSave_raises :
    (after 1 32 (filled 0) []).SaveRaises (.error "database or disk is full")
      (.applyBlock (genesis.peerBlock 1 firstEntry)) := by
  have new_chain : (after 1 32 (filled 0) []).chain = genesis := rfl
  apply saveRaises_of_accepted
  rw [new_chain]
  exact ChainStateV2.peerBlock_accepted 1 firstEntry_valid

/-- A new node whose first save fails keeps the block in memory. -/
theorem not_memoryAgrees_firstSave :
    ¬ ((after 1 32 (filled 0) []).call (.error "database or disk is full")
      (.applyBlock (genesis.peerBlock 1 firstEntry))).2.MemoryAgrees 1 32 (filled 0) :=
  firstSave_raises.not_memoryAgrees (storeBehind_after 1 32 (filled 0) [])

/-- The save of the first block succeeds. -/
def savedFirst : List (Event SymbolicDigest) :=
  [.call (.ok ()) (.applyBlock (genesis.peerBlock 1 firstEntry))]

theorem chain_savedFirst : (after 1 32 (filled 0) savedFirst).chain = afterFirst := by
  have accepted : (new 1 32 (filled 0)).chain.BlockAccepted (genesis.peerBlock 1 firstEntry) :=
    ChainStateV2.peerBlock_accepted 1 firstEntry_valid
  rw [savedFirst, after, List.foldl_cons, List.foldl_nil, handle, chain_call_of_accepted accepted]
  rfl

theorem secondSave_raises :
    (after 1 32 (filled 0) savedFirst).SaveRaises (.error "database or disk is full")
      (.applyBlock (afterFirst.peerBlock 2 bobEntry)) := by
  apply saveRaises_of_accepted
  rw [chain_savedFirst]
  exact ChainStateV2.peerBlock_accepted 2 bobEntry_valid

/-- A node that saved the first block fails to save Bob's; it refuses that block when it comes
again, and every later block that is saved leaves a store that cannot be loaded. -/
theorem failedSave_diverges_secondSave :
    let failed := ((after 1 32 (filled 0) savedFirst).call (.error "database or disk is full")
      (.applyBlock (afterFirst.peerBlock 2 bobEntry))).2
    ¬ failed.MemoryAgrees 1 32 (filled 0) ∧
      (∃ message, failed.chain.applyBlock (afterFirst.peerBlock 2 bobEntry) =
        (.error message, failed.chain)) ∧
      ∀ again later block, (failed.call again later).1 = .ok block →
        ∀ loaded, (failed.call again later).2.store.loadChainState 2 1 32 (filled 0) ≠
          .ok loaded := by
  intro failed
  obtain ⟨diverges, refused, lost⟩ :=
    failedSave_diverges 1 32 (filled 0) savedFirst _ _ secondSave_raises
  exact ⟨diverges, refused _ rfl, lost⟩

end Examples

end ConsensusNode

end Calls

end EZChain
