import EZChain.Chain.Replay
import EZChain.Wallet.StoredProofs

/-!
# Receipts of a consensus node

A node looks a receipt up in the cache of its chain and then in the receipt table of its store.  The
cache can lose a new receipt when it drops an old one of the same sender and seq; the table keeps
the rows of all recent heights.
-/

namespace EZChain

open Checks

variable {H : Type}

/-! ## The receipt table -/

/-- A row of `receipt_window_v2`, keyed by sender and seq. -/
structure ReceiptRow (H : Type) where
  /-- Height of the confirming block. -/
  height : ℕ
  /-- The confirmed bundle. -/
  bundleRef : BundleRef H
  /-- The receipt as it is stored. -/
  receipt : Receipt H

/-- The receipt rows and the proof batch rows of `ConsensusStateStore`. -/
structure ReceiptTables (H : Type) [DecidableEq H] where
  /-- The rows of the receipt table. -/
  receiptWindow : OrderedDict (Address × ℕ) (ReceiptRow H)
  /-- The proof batches, by block. -/
  proofBatches : OrderedDict (BatchId H) (ℕ × ReceiptProofBatch H)
  /-- A batch is stored under its own id. -/
  batches_keyed : ∀ batchId row, proofBatches.get? batchId = some row → row.2.batchId = batchId

namespace ReceiptTables

variable [DecidableEq H]

/-- The tables of a new store. -/
def empty (H : Type) [DecidableEq H] : ReceiptTables H where
  receiptWindow := ∅
  proofBatches := ∅
  batches_keyed := by
    intro batchId row found
    rw [OrderedDict.get?_empty] at found
    cases found

/-- `get_receipt_proof_batch`. -/
def getReceiptProofBatch (tables : ReceiptTables H) : BatchLookup H :=
  fun batchId => (tables.proofBatches.get? batchId).map Prod.snd

/-- The proof batch rows with the batch of a new block, if it has one. -/
def withBatch (tables : ReceiptTables H) (height : ℕ) :
    Option (ReceiptProofBatch H) → ReceiptTables H
  | none => tables
  | some batch =>
      { tables with
        proofBatches := tables.proofBatches.set batch.batchId (height, batch)
        batches_keyed := by
          intro batchId row found
          rw [OrderedDict.get?_set] at found
          split_ifs at found with same
          · rw [← Option.some.inj found]
            exact same
          · exact tables.batches_keyed batchId row found }

/-- Delete the rows of lower heights. -/
def deleteBelow (tables : ReceiptTables H) (minHeight : ℕ) : ReceiptTables H where
  receiptWindow := tables.receiptWindow.filterKeys fun key =>
    ∀ row ∈ tables.receiptWindow.get? key, minHeight ≤ row.height
  proofBatches := tables.proofBatches.filterKeys fun batchId =>
    ∀ row ∈ tables.proofBatches.get? batchId, minHeight ≤ row.1
  batches_keyed := by
    intro batchId row found
    rw [OrderedDict.get?_filterKeys] at found
    split_ifs at found
    exact tables.batches_keyed batchId row found

/-- Insert or replace a receipt row; bundle references are unique. -/
def insertReceipt (window : OrderedDict (Address × ℕ) (ReceiptRow H))
    (entry : (Address × ℕ) × ReceiptRow H) :
    Except String (OrderedDict (Address × ℕ) (ReceiptRow H)) := do
  require (∀ other ∈ window.entries, other.1 ≠ entry.1 → other.2.bundleRef ≠ entry.2.bundleRef)
    "block already persisted or conflicts with existing history"
  pure (window.set entry.1 entry.2)

variable [Crypto H]

/-- `get_receipt`. -/
def getReceipt (tables : ReceiptTables H) (senderAddr : Address) (seq : ℕ) :
    Except String (Option (Receipt H)) :=
  (tables.receiptWindow.get? (senderAddr, seq)).mapM fun row =>
    row.receipt.materialize tables.getReceiptProofBatch

/-- The row that is written for the receipt of a sender. -/
def receiptRow (block : BlockV2 H) (proofBatch : Option (ReceiptProofBatch H))
    (entry : Address × Receipt H) : Except String ((Address × ℕ) × ReceiptRow H) := do
  let entryRefs : OrderedDict Address (Option (BundleRef H)) :=
    OrderedDict.setAll ∅ (block.diffPackage.diffEntries.map fun diffEntry =>
      (diffEntry.newLeaf.addr, diffEntry.newLeaf.headRef))
  let bundleRef ← demand (entryRefs.get? entry.1).join
    "'NoneType' object has no attribute 'height'"
  let compactReceipt ← entry.2.compact entry.1 proofBatch
  pure ((entry.1, compactReceipt.seq),
    ⟨compactReceipt.headerLite.height, bundleRef, compactReceipt⟩)

/-- The receipt part of `save_applied_block`. -/
def saveAppliedBlock (tables : ReceiptTables H) (block : BlockV2 H)
    (receipts : OrderedDict Address (Receipt H)) (receiptCacheBlocks : ℕ)
    (proofBatch : Option (ReceiptProofBatch H)) : Except String (ReceiptTables H) := do
  let rows ← receipts.entries.mapM (receiptRow block proofBatch)
  let window ← rows.foldlM insertReceipt tables.receiptWindow
  let written := tables.withBatch block.header.height proofBatch
  pure ({ written with receiptWindow := window }.deleteBelow
    (max 1 (block.header.height + 1 - receiptCacheBlocks)))

end ReceiptTables

/-- `get_receipt` of a node with the receipt tables of its store. -/
def ConsensusNode.getReceipt [Crypto H] [DecidableEq H] (node : ConsensusNode H)
    (tables : ReceiptTables H) (senderAddr : Address) (seq : ℕ) :
    Except String (Option (Receipt H)) :=
  match node.chain.receiptCache.getReceipt senderAddr seq with
  | some receipt => .ok (some receipt)
  | none => tables.getReceipt senderAddr seq

/-! ## What the table returns -/

namespace ReceiptTables

variable [DecidableEq H]

theorem getReceiptProofBatch_keyed (tables : ReceiptTables H) :
    tables.getReceiptProofBatch.Keyed := by
  intro batchId batch found
  obtain ⟨row, stored, rfl⟩ := Option.map_eq_some_iff.mp found
  exact tables.batches_keyed batchId row stored

theorem eq_setAll_of_insertReceipts {window final : OrderedDict (Address × ℕ) (ReceiptRow H)}
    {rows : List ((Address × ℕ) × ReceiptRow H)}
    (inserted : rows.foldlM insertReceipt window = .ok final) : final = window.setAll rows := by
  induction rows generalizing window with
  | nil => exact (Except.ok.inj inserted).symm
  | cons row rest induction =>
      simp only [List.foldlM_cons, bind_eq_ok, insertReceipt, require_eq_ok, exists_const,
        pure_eq_ok] at inserted
      obtain ⟨_, ⟨-, rfl⟩, later⟩ := inserted
      exact induction later

theorem get?_deleteBelow {tables : ReceiptTables H} {minHeight : ℕ} {key : Address × ℕ}
    {row : ReceiptRow H} (stored : tables.receiptWindow.get? key = some row)
    (recent : minHeight ≤ row.height) :
    (tables.deleteBelow minHeight).receiptWindow.get? key = some row := by
  rw [deleteBelow, OrderedDict.get?_filterKeys, if_pos, stored]
  simpa [stored] using recent

theorem getReceiptProofBatch_deleteBelow {tables : ReceiptTables H} {minHeight height : ℕ}
    {batchId : BatchId H} {batch : ReceiptProofBatch H}
    (stored : tables.proofBatches.get? batchId = some (height, batch))
    (recent : minHeight ≤ height) :
    (tables.deleteBelow minHeight).getReceiptProofBatch batchId = some batch := by
  rw [getReceiptProofBatch, deleteBelow, OrderedDict.get?_filterKeys, if_pos, stored]
  · rfl
  · simpa [stored] using recent

variable [Crypto H]

theorem receiptRow_eq_ok {block : BlockV2 H} {proofBatch : Option (ReceiptProofBatch H)}
    {entry : Address × Receipt H} {row : (Address × ℕ) × ReceiptRow H}
    (made : receiptRow block proofBatch entry = .ok row) :
    row.1 = (entry.1, entry.2.seq) ∧ row.2.height = entry.2.headerLite.height ∧
      entry.2.compact entry.1 proofBatch = .ok row.2.receipt := by
  simp only [receiptRow, bind_eq_ok, pure_eq_ok] at made
  obtain ⟨bundleRef, _, compacted, compacts, rfl⟩ := made
  obtain ⟨proof, rfl⟩ := Receipt.exists_withProof_of_compact compacts
  exact ⟨rfl, rfl, compacts⟩

theorem nodup_rows {block : BlockV2 H} {receipts : OrderedDict Address (Receipt H)}
    {proofBatch : Option (ReceiptProofBatch H)} {rows : List ((Address × ℕ) × ReceiptRow H)}
    (made : receipts.entries.mapM (receiptRow block proofBatch) = .ok rows) :
    (rows.map Prod.fst).Nodup := by
  have senders_eq : receipts.entries.map Prod.fst = (rows.map Prod.fst).map Prod.fst := by
    rw [List.map_map, ← List.forall₂_eq_eq_eq, List.forall₂_map_left_iff,
      List.forall₂_map_right_iff]
    apply (mapM_eq_ok.mp made).imp
    intro entry row row_made
    exact (congrArg Prod.fst (receiptRow_eq_ok row_made).1).symm
  exact List.Nodup.of_map Prod.fst (senders_eq ▸ receipts.nodup)

theorem materialize_of_saved {tables : ReceiptTables H} {height minHeight : ℕ}
    (recent : minHeight ≤ height) {window : OrderedDict (Address × ℕ) (ReceiptRow H)}
    {proofBatch : Option (ReceiptProofBatch H)} {sender : Address} {receipt compacted : Receipt H}
    {proof : SparseMerkleProof H} (proved : receipt.proof = .single proof)
    (compacts : receipt.compact sender proofBatch = .ok compacted) :
    compacted.materialize ({ tables.withBatch height proofBatch with
      receiptWindow := window }.deleteBelow minHeight).getReceiptProofBatch = .ok receipt := by
  cases proofBatch with
  | none =>
      simp only [Receipt.compact, proved, pure_eq_ok] at compacts
      rw [← compacts]
      exact Receipt.materialize_of_single proved
  | some batch =>
      have written : ({ tables.withBatch height (some batch) with
          receiptWindow := window } : ReceiptTables H).proofBatches.get? batch.batchId =
            some (height, batch) := OrderedDict.get?_set_self _ _ _
      rw [← getReceiptProofBatch_deleteBelow written recent] at compacts
      exact Receipt.materialize_of_compact (getReceiptProofBatch_keyed _) proved compacts

/-- A receipt that was saved with its block is read back as it was. -/
theorem getReceipt_of_saved {tables saved : ReceiptTables H} {block : BlockV2 H}
    {receipts : OrderedDict Address (Receipt H)} {receiptCacheBlocks : ℕ}
    {proofBatch : Option (ReceiptProofBatch H)} (positive : 0 < receiptCacheBlocks)
    (above : 0 < block.header.height)
    (saves : tables.saveAppliedBlock block receipts receiptCacheBlocks proofBatch = .ok saved)
    {sender : Address} {receipt : Receipt H} {proof : SparseMerkleProof H}
    (stored : receipts.get? sender = some receipt) (proved : receipt.proof = .single proof)
    (height_eq : receipt.headerLite.height = block.header.height) :
    saved.getReceipt sender receipt.seq = .ok (some receipt) := by
  have recent : max 1 (block.header.height + 1 - receiptCacheBlocks) ≤ block.header.height := by
    omega
  simp only [saveAppliedBlock, bind_eq_ok, pure_eq_ok] at saves
  obtain ⟨rows, made, window, inserted, rfl⟩ := saves
  obtain rfl := eq_setAll_of_insertReceipts inserted
  obtain ⟨row, row_mem, row_made⟩ :=
    exists_mem_of_mapM made ((OrderedDict.get?_eq_some_iff _ _ _).mp stored)
  obtain ⟨key_eq, row_height, compacts⟩ := receiptRow_eq_ok row_made
  have found : (tables.receiptWindow.setAll rows).get? (sender, receipt.seq) = some row.2 :=
    OrderedDict.get?_setAll_of_mem _ (nodup_rows made) (key_eq ▸ row_mem)
  refine optionMapM_eq_ok_some.mpr ⟨row.2, get?_deleteBelow found ?_, ?_⟩
  · rw [row_height, height_eq]
    exact recent
  · exact materialize_of_saved recent proved compacts

theorem exists_compact_of_depth (receipt : Receipt H) (senderAddr : Address)
    {proofBatch : Option (ReceiptProofBatch H)}
    (full : ∀ batch ∈ proofBatch, batch.multiProof.depth = 256) :
    ∃ compacted, receipt.compact senderAddr proofBatch = .ok compacted := by
  unfold Receipt.compact
  split
  · exact ⟨_, rfl⟩
  · exact ⟨_, rfl⟩
  next proof batch _ =>
    split
    · exact ⟨_, rfl⟩
    · have length_eq : (computeAddrKey H senderAddr).bytes.length * 8 =
          batch.multiProof.depth := by
        rw [full batch rfl, (computeAddrKey H senderAddr).length_eq]
      obtain ⟨siblings, materialized⟩ := exists_materializeProof_eq_ok length_eq
      simp only [materialized]
      exact ⟨_, rfl⟩

/-- The receipt of a block with one bundle is saved in empty tables. -/
theorem exists_saveAppliedBlock {chain : ChainStateV2 H} {block : BlockV2 H} {entry : DiffEntry H}
    (accepted : chain.BlockAccepted block) (single : block.diffPackage.diffEntries = [entry])
    {proofBatch : Option (ReceiptProofBatch H)}
    (full : ∀ batch ∈ proofBatch, batch.multiProof.depth = 256) (receiptCacheBlocks : ℕ) :
    ∃ saved, (empty H).saveAppliedBlock block (chain.blockReceipts block) receiptCacheBlocks
      proofBatch = .ok saved := by
  have member : entry ∈ block.diffPackage.diffEntries := single ▸ List.mem_singleton_self entry
  obtain ⟨_, _, _, entry_accepted⟩ := accepted.exists_entryAccepted member
  obtain ⟨headRef, head_eq, -⟩ := entry_accepted.headRef
  obtain ⟨receipt, receipts_eq⟩ : ∃ receipt,
      chain.blockReceipts block = (∅ : OrderedDict Address _).set entry.newLeaf.addr receipt := by
    rw [ChainStateV2.blockReceipts, single]
    exact ⟨_, rfl⟩
  obtain ⟨compacted, compacts⟩ := exists_compact_of_depth receipt entry.newLeaf.addr full
  have row_made : receiptRow block proofBatch (entry.newLeaf.addr, receipt) =
      .ok ((entry.newLeaf.addr, compacted.seq), ⟨compacted.headerLite.height, headRef,
        compacted⟩) := by
    simp only [receiptRow, single, bind_eq_ok, demand_eq_ok, pure_eq_ok]
    refine ⟨headRef, ?_, compacted, compacts, rfl⟩
    simp [OrderedDict.setAll, head_eq]
  have absent : entry.newLeaf.addr ∉ (∅ : OrderedDict Address (Receipt H)).keys :=
    List.not_mem_nil
  have rows_made : (chain.blockReceipts block).entries.mapM (receiptRow block proofBatch) =
      .ok [((entry.newLeaf.addr, compacted.seq), ⟨compacted.headerLite.height, headRef,
        compacted⟩)] := by
    rw [receipts_eq, OrderedDict.entries_set_of_notMem _ absent]
    change [(entry.newLeaf.addr, receipt)].mapM (receiptRow block proofBatch) = _
    rw [List.mapM_cons, List.mapM_nil, row_made]
    rfl
  have inserted : ∃ window, [((entry.newLeaf.addr, compacted.seq),
      (⟨compacted.headerLite.height, headRef, compacted⟩ : ReceiptRow H))].foldlM insertReceipt
        (empty H).receiptWindow = .ok window := by
    simp only [List.foldlM_cons, List.foldlM_nil, insertReceipt, bind_eq_ok, require_eq_ok,
      exists_const, pure_eq_ok]
    exact ⟨_, _, ⟨fun other member => absurd member List.not_mem_nil, rfl⟩, rfl⟩
  obtain ⟨window, inserted⟩ := inserted
  simp only [saveAppliedBlock, bind_eq_ok, pure_eq_ok]
  exact ⟨_, _, rows_made, window, inserted, rfl⟩

end ReceiptTables

/-! ## What the cache returns -/

namespace ReceiptCache

variable [DecidableEq H]

/-- The cache has nothing but the given receipt under a sender and seq. -/
def HasOnly (cache : ReceiptCache H) (senderAddr : Address) (seq : ℕ) (receipt : Receipt H) :
    Prop :=
  ∀ found, cache.getReceipt senderAddr seq = some found → found = receipt

variable {cache : ReceiptCache H} {senderAddr : Address} {seq : ℕ} {receipt : Receipt H}

/-- Pruning only forgets receipts. -/
theorem HasOnly.prune (only : cache.HasOnly senderAddr seq receipt) :
    cache.prune.HasOnly senderAddr seq receipt := by
  have forgets : ∀ (items : List (Address × Receipt H × BundleRef H))
      (dict : OrderedDict (Address × ℕ) (Receipt H)) (found : Receipt H),
      (items.foldl (fun dict item => dict.erase (item.1, item.2.1.seq)) dict).get?
        (senderAddr, seq) = some found → dict.get? (senderAddr, seq) = some found := by
    intro items
    induction items with
    | nil => exact fun _ _ found_eq => found_eq
    | cons item rest induction =>
        intro dict found found_eq
        have kept := induction _ _ found_eq
        rw [OrderedDict.get?_erase] at kept
        split_ifs at kept
        exact kept
  rw [ReceiptCache.prune]
  generalize cache.byHeight.keys.insertionSort (· ≤ ·) = heights
  induction heights generalizing cache with
  | nil => exact only
  | cons height heights induction =>
      rw [pruneHeights]
      split
      · exact induction fun found found_eq => only found (forgets _ _ _ found_eq)
      · exact only

theorem hasOnly_add_self (cache : ReceiptCache H) (senderAddr : Address) (receipt : Receipt H)
    (bundleRef : BundleRef H) :
    (cache.add senderAddr receipt bundleRef).HasOnly senderAddr receipt.seq receipt := by
  refine HasOnly.prune fun found found_eq => ?_
  rw [getReceipt, OrderedDict.get?_set_self] at found_eq
  exact (Option.some.inj found_eq).symm

theorem HasOnly.add_of_ne (only : cache.HasOnly senderAddr seq receipt) {other : Address}
    (other_ne : other ≠ senderAddr) (added : Receipt H) (bundleRef : BundleRef H) :
    (cache.add other added bundleRef).HasOnly senderAddr seq receipt := by
  refine HasOnly.prune fun found found_eq => only found ?_
  rw [getReceipt, OrderedDict.get?_set_of_ne _ (by simp [other_ne])] at found_eq
  exact found_eq

/-! ### The depth of cached batches -/

/-- Every cached batch is one of the state tree. -/
def FullDepth (cache : ReceiptCache H) : Prop :=
  ∀ batchId, ∀ batch ∈ cache.getProofBatch batchId, batch.multiProof.depth = 256

theorem FullDepth.prune (full : cache.FullDepth) : cache.prune.FullDepth := by
  have forgets : ∀ (ids : List (BatchId H)) (dict : OrderedDict (BatchId H) (ReceiptProofBatch H))
      (batchId : BatchId H) (batch : ReceiptProofBatch H),
      (ids.foldl (fun dict batchId => dict.erase batchId) dict).get? batchId = some batch →
        dict.get? batchId = some batch := by
    intro ids
    induction ids with
    | nil => exact fun _ _ _ found => found
    | cons first rest induction =>
        intro dict batchId batch found
        have kept := induction _ _ _ found
        rw [OrderedDict.get?_erase] at kept
        split_ifs at kept
        exact kept
  rw [ReceiptCache.prune]
  generalize cache.byHeight.keys.insertionSort (· ≤ ·) = heights
  induction heights generalizing cache with
  | nil => exact full
  | cons height heights induction =>
      rw [pruneHeights]
      split
      · exact induction fun batchId batch found => full batchId batch (forgets _ _ _ _ found)
      · exact full

theorem FullDepth.add (full : cache.FullDepth) (senderAddr : Address) (receipt : Receipt H)
    (bundleRef : BundleRef H) : (cache.add senderAddr receipt bundleRef).FullDepth :=
  FullDepth.prune fun batchId batch found => full batchId batch found

theorem FullDepth.addProofBatch (full : cache.FullDepth) (height : ℕ)
    {batch : ReceiptProofBatch H} (depth_eq : batch.multiProof.depth = 256) :
    (cache.addProofBatch height batch).FullDepth := by
  refine FullDepth.prune fun batchId other found => ?_
  rw [getProofBatch, Option.mem_def, OrderedDict.get?_set] at found
  split_ifs at found
  · rw [← Option.some.inj found]
    exact depth_eq
  · exact full batchId other found

end ReceiptCache

namespace ChainStateV2

variable [DecidableEq H] [Crypto H] {state : ChainStateV2 H} {block : BlockV2 H}

omit [Crypto H] in
theorem hasOnly_addReceipts {cache : ReceiptCache H} {senderAddr : Address} {seq : ℕ}
    {receipt : Receipt H} (only : cache.HasOnly senderAddr seq receipt)
    {entries : List (DiffEntry H)} (others : ∀ entry ∈ entries, entry.newLeaf.addr ≠ senderAddr)
    (receiptOf : DiffEntry H → Receipt H) :
    (addReceipts cache entries receiptOf).HasOnly senderAddr seq receipt := by
  induction entries generalizing cache with
  | nil => exact only
  | cons entry rest induction =>
      obtain ⟨other, others⟩ := List.forall_mem_cons.mp others
      refine induction ?_ others
      cases head_eq : entry.newLeaf.headRef with
      | none => simpa only [addReceipt, head_eq] using only
      | some headRef => simpa only [addReceipt, head_eq] using only.add_of_ne other _ _

theorem hasOnly_nextState (accepted : state.BlockAccepted block) {entry : DiffEntry H}
    (member : entry ∈ block.diffPackage.diffEntries) :
    (state.nextState block).receiptCache.HasOnly entry.newLeaf.addr entry.bundleEnvelope.seq
      (state.appliedReceipt block (setLeaves state.tree block.diffPackage.diffEntries) entry) := by
  obtain ⟨_, _, _, entry_accepted⟩ := accepted.exists_entryAccepted member
  obtain ⟨headRef, head_eq, -⟩ := entry_accepted.headRef
  have senders := accepted.sendersNodup
  obtain ⟨before, after, split⟩ := List.append_of_mem member
  rw [split, List.map_append, List.map_cons, List.nodup_append, List.nodup_cons] at senders
  have others : ∀ other ∈ after, other.newLeaf.addr ≠ entry.newLeaf.addr :=
    fun other other_mem same => senders.2.1.1 (List.mem_map.mpr ⟨other, other_mem, same⟩)
  simp only [nextState]
  rw [addReceipts, split, List.foldl_append, List.foldl_cons]
  refine hasOnly_addReceipts ?_ others _
  simp only [addReceipt, head_eq]
  exact ReceiptCache.hasOnly_add_self _ _ _ _

/-- A block adds a batch of the state tree to the cache. -/
theorem fullDepth_nextState (full : state.receiptCache.FullDepth) (block : BlockV2 H) :
    (state.nextState block).receiptCache.FullDepth := by
  have added : ∀ (entries : List (DiffEntry H)) (receiptOf : DiffEntry H → Receipt H)
      (cache : ReceiptCache H), cache.FullDepth →
        (addReceipts cache entries receiptOf).FullDepth := by
    intro entries receiptOf
    induction entries with
    | nil => exact fun _ full => full
    | cons entry rest induction =>
        intro cache full
        apply induction _
        cases head_eq : entry.newLeaf.headRef with
        | none => simpa only [addReceipt, head_eq] using full
        | some headRef => simpa only [addReceipt, head_eq] using full.add _ _ _
  apply added _ _ _
  split
  · exact full
  · exact full.addProofBatch _ rfl

omit [DecidableEq H] in
theorem get?_blockReceipts (accepted : state.BlockAccepted block) {entry : DiffEntry H}
    (member : entry ∈ block.diffPackage.diffEntries) :
    (state.blockReceipts block).get? entry.newLeaf.addr =
      some (state.appliedReceipt block (setLeaves state.tree block.diffPackage.diffEntries)
        entry) := by
  refine OrderedDict.get?_setAll_of_mem _ ?_ (List.mem_map_of_mem member)
  rw [List.map_map]
  exact accepted.sendersNodup

end ChainStateV2

/-- A node that has applied and saved a block returns the receipts of its entries. -/
theorem ConsensusNode.getReceipt_of_saved [Crypto H] [DecidableEq H] {node : ConsensusNode H}
    {chain : ChainStateV2 H} {block : BlockV2 H} (accepted : chain.BlockAccepted block)
    (applied : node.chain = chain.nextState block) {tables saved : ReceiptTables H}
    {receiptCacheBlocks : ℕ} {proofBatch : Option (ReceiptProofBatch H)}
    (positive : 0 < receiptCacheBlocks)
    (saves : tables.saveAppliedBlock block (chain.blockReceipts block) receiptCacheBlocks
      proofBatch = .ok saved)
    {entry : DiffEntry H} (member : entry ∈ block.diffPackage.diffEntries) :
    ∃ receipt, (chain.blockReceipts block).get? entry.newLeaf.addr = some receipt ∧
      node.getReceipt saved entry.newLeaf.addr entry.bundleEnvelope.seq = .ok (some receipt) := by
  have stored := ChainStateV2.get?_blockReceipts accepted member
  have only := ChainStateV2.hasOnly_nextState accepted member
  have above : 0 < block.header.height := by
    rw [accepted.height]
    exact Nat.succ_pos _
  refine ⟨_, stored, ?_⟩
  rw [ConsensusNode.getReceipt, applied]
  cases cached : (chain.nextState block).receiptCache.getReceipt entry.newLeaf.addr
    entry.bundleEnvelope.seq with
  | some found => rw [only found cached]
  | none => exact ReceiptTables.getReceipt_of_saved positive above saves stored rfl rfl

end EZChain
