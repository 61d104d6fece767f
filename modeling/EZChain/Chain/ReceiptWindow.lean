import EZChain.Chain.ReceiptCache
import Mathlib.Data.List.DropRight
import Mathlib.Data.List.Flatten

/-!
# Receipt windows

Each non-empty block adds one proof batch and its receipts to the cache, and the cache forgets the
lowest height when it holds too many.  The entries of every index then stand in the order of the
blocks, so that one height is the front of each index, and forgetting it removes that front and
nothing else.  This needs keys that do not repeat from one block to another.
-/

namespace EZChain

variable {H : Type}

/-! ## Blocks in the cache -/

/-- What one block adds to the cache: its proof batch, and its receipts with their references. -/
structure CachedBlock (H : Type) where
  /-- The proof batch of the block. -/
  batch : ReceiptProofBatch H
  /-- The receipts of the block, with the bundles that they confirm. -/
  receipts : List (Address × Receipt H × BundleRef H)

namespace CachedBlock

/-- The height under which the block is cached. -/
def height (block : CachedBlock H) : ℕ := block.batch.batchId.height

/-- Receipts carry the header of the block and the root of its batch. -/
def Consistent (block : CachedBlock H) : Prop :=
  ∀ item ∈ block.receipts, item.2.1.headerLite =
    ⟨block.batch.batchId.height, block.batch.batchId.blockHash, block.batch.stateRoot⟩

/-- Senders and seqs of the receipts. -/
def senderSeqs (block : CachedBlock H) : List (Address × ℕ) :=
  block.receipts.map fun item => (item.1, item.2.1.seq)

/-- Bundle references of the receipts. -/
def refs (block : CachedBlock H) : List (BundleRef H) :=
  block.receipts.map fun item => item.2.2

end CachedBlock

namespace ReceiptCache

variable [DecidableEq H]

/-- Add a proof batch and then the receipts; a block without receipts adds nothing. -/
def addBlock (cache : ReceiptCache H) (block : CachedBlock H) : ReceiptCache H :=
  if block.receipts = [] then cache
  else
    block.receipts.foldl (fun cache item => cache.add item.1 item.2.1 item.2.2)
      (cache.addProofBatch block.height block.batch)

@[simp]
theorem maxBlocks_addBlock (cache : ReceiptCache H) (cached : CachedBlock H) :
    (cache.addBlock cached).maxBlocks = cache.maxBlocks := by
  have kept : ∀ (items : List (Address × Receipt H × BundleRef H)) (cache : ReceiptCache H),
      (items.foldl (fun cache item => cache.add item.1 item.2.1 item.2.2) cache).maxBlocks =
        cache.maxBlocks := by
    intro items cache
    induction items generalizing cache with
    | nil => rfl
    | cons item items induction => rw [List.foldl_cons, induction, maxBlocks_add]
  rw [addBlock]
  split
  · rfl
  · rw [kept, maxBlocks_addProofBatch]

/-- The indexes hold the receipts of some blocks, and the batches of these and of blocks whose
receipts have not been added yet. -/
structure Shows (cache : ReceiptCache H) (held : List (CachedBlock H))
    (pending : List (ReceiptProofBatch H)) : Prop where
  byHeight : cache.byHeight.entries = held.map fun block => (block.height, block.receipts)
  byAddrSeq : cache.byAddrSeq.entries = held.flatMap fun block =>
    block.receipts.map fun item => ((item.1, item.2.1.seq), item.2.1)
  byRef : cache.byRef.entries = held.flatMap fun block =>
    block.receipts.map fun item => (item.2.2, item.2.1)
  batchesByHeight : cache.proofBatchesByHeight.entries =
    (held.map CachedBlock.batch ++ pending).map fun batch => (batch.batchId.height, [batch.batchId])
  batches : cache.proofBatches.entries =
    (held.map CachedBlock.batch ++ pending).map fun batch => (batch.batchId, batch)

section Steps

variable {cache : ReceiptCache H} {held : List (CachedBlock H)} {block : CachedBlock H}
  {pending : List (ReceiptProofBatch H)}

/-! ## Forgetting -/

/-- Forgetting the first height removes the first block from every index. -/
theorem Shows.dropHeight (shows : cache.Shows (block :: held) pending) :
    (cache.dropHeight block.height).Shows held pending := by
  have receipts_eq : cache.byHeight.get? block.height = some block.receipts :=
    OrderedDict.get?_of_entries_cons shows.byHeight
  have batches_eq : cache.proofBatchesByHeight.get? block.height = some [block.batch.batchId] :=
    OrderedDict.get?_of_entries_cons shows.batchesByHeight
  simp only [ReceiptCache.dropHeight, receipts_eq, batches_eq, Option.getD_some, List.foldl_cons,
    List.foldl_nil]
  exact
    { byHeight := OrderedDict.entries_erase_first shows.byHeight
      byAddrSeq := OrderedDict.entries_foldl_erase _ _ shows.byAddrSeq
      byRef := OrderedDict.entries_foldl_erase _ _ shows.byRef
      batchesByHeight := OrderedDict.entries_erase_first shows.batchesByHeight
      batches := OrderedDict.entries_erase_first shows.batches }

/-- The pruning loop forgets blocks from the front until few enough are left. -/
theorem Shows.pruneHeights (shows : cache.Shows held pending) :
    (cache.pruneHeights (held.map CachedBlock.height)).Shows
      (held.drop (held.length - cache.maxBlocks)) pending := by
  induction held generalizing cache with
  | nil =>
      rw [List.drop_nil]
      exact shows
  | cons block held induction =>
      rw [List.map_cons, ReceiptCache.pruneHeights]
      split
      · next too_many =>
          simp only [List.length_cons, List.length_map] at too_many
          have excess_eq : (block :: held).length - cache.maxBlocks =
              held.length - cache.maxBlocks + 1 := by
            rw [List.length_cons]
            omega
          rw [excess_eq, List.drop_succ_cons]
          exact induction shows.dropHeight
      · next fits =>
          simp only [List.length_cons, List.length_map] at fits
          have excess_eq : (block :: held).length - cache.maxBlocks = 0 := by
            rw [List.length_cons]
            omega
          rw [excess_eq, List.drop_zero]
          exact shows

/-- Pruning keeps the last blocks. -/
theorem Shows.prune (shows : cache.Shows held pending)
    (increasing : (held.map CachedBlock.height).Pairwise (· < ·)) :
    cache.prune.Shows (held.drop (held.length - cache.maxBlocks)) pending := by
  have keys_eq : cache.byHeight.keys = held.map CachedBlock.height := by
    rw [OrderedDict.keys, shows.byHeight, List.map_map]
    rfl
  have sorted_eq : (held.map CachedBlock.height).insertionSort (· ≤ ·) =
      held.map CachedBlock.height := by
    apply List.Pairwise.insertionSort_eq
    exact increasing.imp fun less => Nat.le_of_lt less
  rw [ReceiptCache.prune, keys_eq, sorted_eq]
  exact shows.pruneHeights

/-! ## Adding -/

/-- A fresh batch waits for its receipts. -/
theorem Shows.addProofBatch (shows : cache.Shows held [])
    (increasing : (held.map CachedBlock.height).Pairwise (· < ·))
    (fits : held.length ≤ cache.maxBlocks) {batch : ReceiptProofBatch H}
    (fresh : batch.batchId.height ∉ held.map CachedBlock.height) :
    (cache.addProofBatch batch.batchId.height batch).Shows held [batch] := by
  have heights_eq : cache.proofBatchesByHeight.keys = held.map CachedBlock.height := by
    rw [OrderedDict.keys, shows.batchesByHeight, List.append_nil, List.map_map, List.map_map]
    rfl
  have height_absent : batch.batchId.height ∉ cache.proofBatchesByHeight.keys := by
    rwa [heights_eq]
  have batch_absent : batch.batchId ∉ cache.proofBatches.keys := by
    rw [OrderedDict.keys, shows.batches, List.append_nil, List.map_map, List.map_map]
    intro member
    obtain ⟨block, block_mem, batchId_eq⟩ := List.mem_map.mp member
    apply fresh
    rw [← batchId_eq]
    exact List.mem_map_of_mem block_mem
  have none_listed : cache.proofBatchesByHeight.get? batch.batchId.height = none :=
    (OrderedDict.get?_eq_none_iff _ _).mpr height_absent
  have kept : held.drop (held.length - cache.maxBlocks) = held := by
    rw [Nat.sub_eq_zero_of_le fits, List.drop_zero]
  rw [← kept]
  simp only [ReceiptCache.addProofBatch, none_listed, Option.getD_none, List.not_mem_nil, if_false,
    List.nil_append]
  refine Shows.prune ⟨shows.byHeight, shows.byAddrSeq, shows.byRef, ?_, ?_⟩ increasing
  · rw [OrderedDict.entries_set_of_notMem _ height_absent, shows.batchesByHeight]
    simp
  · rw [OrderedDict.entries_set_of_notMem _ batch_absent, shows.batches]
    simp

/-- Sender, seq and reference of a receipt are new to the cache. -/
structure Fresh (held : List (CachedBlock H)) (item : Address × Receipt H × BundleRef H) :
    Prop where
  senderSeq : (item.1, item.2.1.seq) ∉ held.flatMap CachedBlock.senderSeqs
  ref : item.2.2 ∉ held.flatMap CachedBlock.refs

omit [DecidableEq H] in
theorem Shows.keys_byAddrSeq (shows : cache.Shows held pending) :
    cache.byAddrSeq.keys = held.flatMap CachedBlock.senderSeqs := by
  rw [OrderedDict.keys, shows.byAddrSeq, List.map_flatMap]
  simp only [List.map_map]
  rfl

omit [DecidableEq H] in
theorem Shows.keys_byRef (shows : cache.Shows held pending) :
    cache.byRef.keys = held.flatMap CachedBlock.refs := by
  rw [OrderedDict.keys, shows.byRef, List.map_flatMap]
  simp only [List.map_map]
  rfl

/-- The first receipt of a block makes room for the block. -/
theorem Shows.addFirst {batch : ReceiptProofBatch H} (shows : cache.Shows held [batch])
    {item : Address × Receipt H × BundleRef H}
    (height_eq : item.2.1.headerLite.height = batch.batchId.height) (fresh : Fresh held item)
    (increasing :
      ((held ++ [CachedBlock.mk batch [item]]).map CachedBlock.height).Pairwise (· < ·)) :
    (cache.add item.1 item.2.1 item.2.2).Shows
      ((held ++ [CachedBlock.mk batch [item]]).drop (held.length + 1 - cache.maxBlocks)) [] := by
  have absent : batch.batchId.height ∉ cache.byHeight.keys := by
    rw [OrderedDict.keys, shows.byHeight, List.map_map]
    intro member
    obtain ⟨block, block_mem, same⟩ := List.mem_map.mp member
    rw [List.map_append, List.pairwise_append] at increasing
    have less := increasing.2.2 block.height (List.mem_map_of_mem block_mem) batch.batchId.height
      List.mem_cons_self
    exact absurd same less.ne
  have none_listed : cache.byHeight.get? batch.batchId.height = none :=
    (OrderedDict.get?_eq_none_iff _ _).mpr absent
  have seq_absent : (item.1, item.2.1.seq) ∉ cache.byAddrSeq.keys := by
    rw [shows.keys_byAddrSeq]
    exact fresh.senderSeq
  have ref_absent : item.2.2 ∉ cache.byRef.keys := by
    rw [shows.keys_byRef]
    exact fresh.ref
  have length_eq : (held ++ [CachedBlock.mk batch [item]]).length = held.length + 1 := by
    rw [List.length_append, List.length_singleton]
  rw [← length_eq]
  simp only [ReceiptCache.add, height_eq, none_listed, Option.getD_none, List.nil_append]
  refine Shows.prune ⟨?_, ?_, ?_, ?_, ?_⟩ increasing
  · rw [OrderedDict.entries_set_of_notMem _ absent, shows.byHeight]
    simp [CachedBlock.height]
  · rw [OrderedDict.entries_set_of_notMem _ seq_absent, shows.byAddrSeq]
    simp
  · rw [OrderedDict.entries_set_of_notMem _ ref_absent, shows.byRef]
    simp
  · simpa using shows.batchesByHeight
  · simpa using shows.batches

/-- Further receipts join the last block. -/
theorem Shows.addNext {batch : ReceiptProofBatch H}
    {items : List (Address × Receipt H × BundleRef H)}
    (shows : cache.Shows (held ++ [CachedBlock.mk batch items]) [])
    {item : Address × Receipt H × BundleRef H}
    (height_eq : item.2.1.headerLite.height = batch.batchId.height)
    (fresh : Fresh (held ++ [CachedBlock.mk batch items]) item)
    (increasing :
      ((held ++ [CachedBlock.mk batch (items ++ [item])]).map CachedBlock.height).Pairwise (· < ·))
    (fits : held.length + 1 ≤ cache.maxBlocks) :
    (cache.add item.1 item.2.1 item.2.2).Shows
      (held ++ [CachedBlock.mk batch (items ++ [item])]) [] := by
  have by_height : cache.byHeight.entries =
      held.map (fun block => (block.height, block.receipts)) ++
        [(batch.batchId.height, items)] := by
    rw [shows.byHeight, List.map_append]
    rfl
  have listed : cache.byHeight.get? batch.batchId.height = some items :=
    OrderedDict.get?_of_entries_concat by_height
  have seq_absent : (item.1, item.2.1.seq) ∉ cache.byAddrSeq.keys := by
    rw [shows.keys_byAddrSeq]
    exact fresh.senderSeq
  have ref_absent : item.2.2 ∉ cache.byRef.keys := by
    rw [shows.keys_byRef]
    exact fresh.ref
  have kept : (held ++ [CachedBlock.mk batch (items ++ [item])]).drop
      ((held ++ [CachedBlock.mk batch (items ++ [item])]).length - cache.maxBlocks) =
        held ++ [CachedBlock.mk batch (items ++ [item])] := by
    rw [List.length_append, List.length_singleton, Nat.sub_eq_zero_of_le fits, List.drop_zero]
  rw [← kept]
  simp only [ReceiptCache.add, height_eq, listed, Option.getD_some]
  refine Shows.prune ⟨?_, ?_, ?_, ?_, ?_⟩ increasing
  · rw [OrderedDict.entries_set_last by_height, List.map_append]
    rfl
  · rw [OrderedDict.entries_set_of_notMem _ seq_absent, shows.byAddrSeq]
    simp
  · rw [OrderedDict.entries_set_of_notMem _ ref_absent, shows.byRef]
    simp
  · simpa using shows.batchesByHeight
  · simpa using shows.batches

omit [DecidableEq H] in
theorem notMem_of_nodup {κ : Type} (key : Address × Receipt H × BundleRef H → κ)
    {batch : ReceiptProofBatch H} {items rest : List (Address × Receipt H × BundleRef H)}
    {item : Address × Receipt H × BundleRef H}
    (nodup : ((held ++ [CachedBlock.mk batch (items ++ item :: rest)]).flatMap fun block =>
      block.receipts.map key).Nodup) :
    key item ∉ (held ++ [CachedBlock.mk batch items]).flatMap fun block =>
      block.receipts.map key := by
  have split_eq : ((held ++ [CachedBlock.mk batch (items ++ item :: rest)]).flatMap fun block =>
      block.receipts.map key) =
        ((held ++ [CachedBlock.mk batch items]).flatMap fun block => block.receipts.map key) ++
          key item :: rest.map key := by
    simp
  rw [split_eq] at nodup
  exact fun earlier => List.disjoint_of_nodup_append nodup earlier List.mem_cons_self

omit [DecidableEq H] in
theorem fresh_of_nodup {batch : ReceiptProofBatch H}
    {items rest : List (Address × Receipt H × BundleRef H)}
    {item : Address × Receipt H × BundleRef H}
    (seqs_nodup : ((held ++ [CachedBlock.mk batch (items ++ item :: rest)]).flatMap
      CachedBlock.senderSeqs).Nodup)
    (refs_nodup : ((held ++ [CachedBlock.mk batch (items ++ item :: rest)]).flatMap
      CachedBlock.refs).Nodup) :
    Fresh (held ++ [CachedBlock.mk batch items]) item :=
  ⟨notMem_of_nodup (fun item => (item.1, item.2.1.seq)) seqs_nodup,
    notMem_of_nodup (fun item => item.2.2) refs_nodup⟩

omit [DecidableEq H] in
theorem Fresh.left {others : List (CachedBlock H)} {item : Address × Receipt H × BundleRef H}
    (fresh : Fresh (held ++ others) item) : Fresh held item := by
  constructor
  · intro member
    apply fresh.senderSeq
    rw [List.flatMap_append]
    exact List.mem_append_left _ member
  · intro member
    apply fresh.ref
    rw [List.flatMap_append]
    exact List.mem_append_left _ member

/-- The other receipts of a block join the last block one by one. -/
theorem Shows.addRest {batch : ReceiptProofBatch H}
    {items rest : List (Address × Receipt H × BundleRef H)}
    (shows : cache.Shows (held ++ [CachedBlock.mk batch items]) [])
    (heights : ∀ item ∈ rest, item.2.1.headerLite.height = batch.batchId.height)
    (increasing : (held.map CachedBlock.height ++ [batch.batchId.height]).Pairwise (· < ·))
    (seqs_nodup : ((held ++ [CachedBlock.mk batch (items ++ rest)]).flatMap
      CachedBlock.senderSeqs).Nodup)
    (refs_nodup : ((held ++ [CachedBlock.mk batch (items ++ rest)]).flatMap
      CachedBlock.refs).Nodup)
    (fits : held.length + 1 ≤ cache.maxBlocks) :
    (rest.foldl (fun cache item => cache.add item.1 item.2.1 item.2.2) cache).Shows
      (held ++ [CachedBlock.mk batch (items ++ rest)]) [] := by
  induction rest generalizing cache items with
  | nil => simpa using shows
  | cons item rest induction =>
      obtain ⟨height_eq, rest_heights⟩ := List.forall_mem_cons.mp heights
      have added := shows.addNext height_eq (fresh_of_nodup seqs_nodup refs_nodup)
        (by rw [List.map_append]; exact increasing) fits
      have items_eq : items ++ item :: rest = (items ++ [item]) ++ rest := by simp
      rw [items_eq] at seqs_nodup refs_nodup ⊢
      exact induction added rest_heights seqs_nodup refs_nodup (by rwa [maxBlocks_add])

/-- A block joins the last blocks, and the oldest one makes room when it has to. -/
theorem Shows.addBlock (shows : cache.Shows held []) (fits : held.length ≤ cache.maxBlocks)
    (positive : 0 < cache.maxBlocks) (consistent : block.Consistent)
    (nonempty : block.receipts ≠ [])
    (increasing : ((held ++ [block]).map CachedBlock.height).Pairwise (· < ·))
    (seqs_nodup : ((held ++ [block]).flatMap CachedBlock.senderSeqs).Nodup)
    (refs_nodup : ((held ++ [block]).flatMap CachedBlock.refs).Nodup) :
    (cache.addBlock block).Shows
      ((held ++ [block]).drop (held.length + 1 - cache.maxBlocks)) [] := by
  obtain ⟨batch, receipts⟩ := block
  have heights : ∀ item ∈ receipts, item.2.1.headerLite.height = batch.batchId.height :=
    fun item member => congrArg HeaderLite.height (consistent item member)
  cases receipts with
  | nil => exact absurd rfl nonempty
  | cons first rest =>
      obtain ⟨first_height, rest_heights⟩ := List.forall_mem_cons.mp heights
      rw [List.map_append] at increasing
      have fresh_height : batch.batchId.height ∉ held.map CachedBlock.height := fun member =>
        absurd rfl ((List.pairwise_append.mp increasing).2.2 _ member batch.batchId.height
          List.mem_cons_self).ne
      have waiting := shows.addProofBatch (List.pairwise_append.mp increasing).1 fits fresh_height
      have fresh : Fresh (held ++ [CachedBlock.mk batch []]) first :=
        fresh_of_nodup seqs_nodup refs_nodup
      have added := waiting.addFirst first_height fresh.left
        (by rw [List.map_append]; exact increasing)
      rw [maxBlocks_addProofBatch] at added
      -- Room was made for the whole block, so its other receipts forget nothing.
      have room : held.length + 1 - cache.maxBlocks ≤ held.length := by omega
      rw [List.drop_append_of_le_length room] at added ⊢
      have kept : (held.drop (held.length + 1 - cache.maxBlocks)).Sublist held :=
        List.drop_sublist _ _
      have whole := kept.append (List.Sublist.refl [CachedBlock.mk batch (first :: rest)])
      rw [ReceiptCache.addBlock, if_neg nonempty]
      apply added.addRest rest_heights
      · exact increasing.sublist ((kept.map _).append (List.Sublist.refl _))
      · exact seqs_nodup.sublist (whole.flatMap _)
      · exact refs_nodup.sublist (whole.flatMap _)
      · rw [List.length_drop, maxBlocks_add, maxBlocks_addProofBatch]
        omega

end Steps

/-! ## Reading -/

/-- The cache answers from the given blocks and from nothing else. -/
structure Holds (cache : ReceiptCache H) (blocks : List (CachedBlock H)) : Prop where
  heights : cache.byHeight.keys = blocks.map CachedBlock.height
  batchHeights : cache.proofBatchesByHeight.keys = blocks.map CachedBlock.height
  receipt_iff : ∀ senderAddr seq receipt, cache.getReceipt senderAddr seq = some receipt ↔
    ∃ block ∈ blocks, ∃ ref, (senderAddr, receipt, ref) ∈ block.receipts ∧ receipt.seq = seq
  receiptByRef_iff : ∀ ref receipt, cache.getReceiptByRef ref = some receipt ↔
    ∃ block ∈ blocks, ∃ senderAddr, (senderAddr, receipt, ref) ∈ block.receipts
  proofBatch_iff : ∀ batchId batch, cache.getProofBatch batchId = some batch ↔
    ∃ block ∈ blocks, block.batch = batch ∧ batch.batchId = batchId

section Reading

variable {cache : ReceiptCache H} {held : List (CachedBlock H)}

theorem Shows.holds (shows : cache.Shows held []) : cache.Holds held where
  heights := by
    rw [OrderedDict.keys, shows.byHeight, List.map_map]
    rfl
  batchHeights := by
    rw [OrderedDict.keys, shows.batchesByHeight, List.append_nil, List.map_map, List.map_map]
    rfl
  receipt_iff senderAddr seq receipt := by
    rw [getReceipt, OrderedDict.get?_eq_some_iff, shows.byAddrSeq, List.mem_flatMap]
    constructor
    · rintro ⟨block, block_mem, member⟩
      obtain ⟨item, item_mem, item_eq⟩ := List.mem_map.mp member
      simp only [Prod.mk.injEq] at item_eq
      obtain ⟨⟨rfl, rfl⟩, rfl⟩ := item_eq
      exact ⟨block, block_mem, item.2.2, item_mem, rfl⟩
    · rintro ⟨block, block_mem, ref, item_mem, rfl⟩
      exact ⟨block, block_mem, List.mem_map.mpr ⟨_, item_mem, rfl⟩⟩
  receiptByRef_iff ref receipt := by
    rw [getReceiptByRef, OrderedDict.get?_eq_some_iff, shows.byRef, List.mem_flatMap]
    constructor
    · rintro ⟨block, block_mem, member⟩
      obtain ⟨item, item_mem, item_eq⟩ := List.mem_map.mp member
      simp only [Prod.mk.injEq] at item_eq
      obtain ⟨rfl, rfl⟩ := item_eq
      exact ⟨block, block_mem, item.1, item_mem⟩
    · rintro ⟨block, block_mem, senderAddr, item_mem⟩
      exact ⟨block, block_mem, List.mem_map.mpr ⟨_, item_mem, rfl⟩⟩
  proofBatch_iff batchId batch := by
    rw [getProofBatch, OrderedDict.get?_eq_some_iff, shows.batches, List.append_nil, List.map_map,
      List.mem_map]
    constructor
    · rintro ⟨block, block_mem, entry_eq⟩
      simp only [Function.comp_apply, Prod.mk.injEq] at entry_eq
      obtain ⟨rfl, rfl⟩ := entry_eq
      exact ⟨block, block_mem, rfl, rfl⟩
    · rintro ⟨block, block_mem, rfl, rfl⟩
      exact ⟨block, block_mem, rfl⟩

/-- The batch of a held block is found under the block's own name. -/
theorem Holds.proofBatch_of_header (holds : cache.Holds held) {block : CachedBlock H}
    (block_mem : block ∈ held) (consistent : block.Consistent)
    {item : Address × Receipt H × BundleRef H} (item_mem : item ∈ block.receipts) :
    ∃ batch, cache.getProofBatch
        ⟨item.2.1.headerLite.height, item.2.1.headerLite.blockHash⟩ = some batch ∧
      batch.stateRoot = item.2.1.headerLite.stateRoot := by
  refine ⟨block.batch, (holds.proofBatch_iff _ _).mpr ⟨block, block_mem, rfl, ?_⟩, ?_⟩
  · rw [consistent item item_mem]
  · rw [consistent item item_mem]

end Reading

/-! ## Windows -/

/-- The last blocks that have receipts. -/
def window (maxBlocks : ℕ) (blocks : List (CachedBlock H)) : List (CachedBlock H) :=
  (blocks.filter fun block => !block.receipts.isEmpty).rtake maxBlocks

theorem rtake_concat {α : Type} (count : ℕ) (items : List α) (item : α) :
    (items.rtake count ++ [item]).drop ((items.rtake count).length + 1 - count) =
      (items ++ [item]).rtake count := by
  have inside : items.length - count ≤ items.length := Nat.sub_le _ _
  simp only [List.rtake, List.length_append, List.length_singleton, List.length_drop]
  rw [← List.drop_append_of_le_length inside, List.drop_drop]
  congr 1
  omega

omit [DecidableEq H] in
theorem window_sublist (maxBlocks : ℕ) (blocks : List (CachedBlock H)) :
    (window maxBlocks blocks).Sublist blocks :=
  (List.drop_sublist _ _).trans List.filter_sublist

/-- The cache shows the window of all blocks that were added. -/
theorem Shows.window_step {cache : ReceiptCache H} {blocks : List (CachedBlock H)}
    {block : CachedBlock H} (shows : cache.Shows (window cache.maxBlocks blocks) [])
    (positive : 0 < cache.maxBlocks) (consistent : block.Consistent)
    (increasing : ((blocks ++ [block]).map CachedBlock.height).Pairwise (· < ·))
    (seqs_nodup : ((blocks ++ [block]).flatMap CachedBlock.senderSeqs).Nodup)
    (refs_nodup : ((blocks ++ [block]).flatMap CachedBlock.refs).Nodup) :
    (cache.addBlock block).Shows (window cache.maxBlocks (blocks ++ [block])) [] := by
  by_cases empty : block.receipts = []
  · have window_eq : window cache.maxBlocks (blocks ++ [block]) =
        window cache.maxBlocks blocks := by
      simp [window, List.filter_append, empty]
    rw [window_eq, ReceiptCache.addBlock, if_pos empty]
    exact shows
  · have window_eq : window cache.maxBlocks (blocks ++ [block]) =
        (window cache.maxBlocks blocks ++ [block]).drop
          ((window cache.maxBlocks blocks).length + 1 - cache.maxBlocks) := by
      rw [window, window, rtake_concat]
      simp [List.filter_append, empty]
    have kept := (window_sublist cache.maxBlocks blocks).append (List.Sublist.refl [block])
    rw [window_eq]
    apply shows.addBlock _ positive consistent empty
    · exact increasing.sublist (kept.map _)
    · exact seqs_nodup.sublist (kept.flatMap _)
    · exact refs_nodup.sublist (kept.flatMap _)
    · rw [window, List.rtake, List.length_drop]
      omega

end ReceiptCache

end EZChain
