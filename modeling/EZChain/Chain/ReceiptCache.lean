import EZChain.Chain.Hashing

/-!
# Receipt cache

Receipts of recent blocks are indexed by sender and sequence number and by bundle reference.
When receipts of too many heights are held, the lowest heights are dropped together with their
proof batches.
-/

namespace EZChain

/-- `ReceiptCache`. -/
structure ReceiptCache (H : Type) where
  /-- The number of blocks to keep. -/
  maxBlocks : ℕ
  /-- The receipts of a block, by sender. -/
  byHeight : OrderedDict ℕ (List (Address × Receipt H × BundleRef H))
  /-- The receipts by sender and sequence number. -/
  byAddrSeq : OrderedDict (Address × ℕ) (Receipt H)
  /-- The receipts by the confirmed bundle. -/
  byRef : OrderedDict (BundleRef H) (Receipt H)
  /-- The ids of the proof batches of a block. -/
  proofBatchesByHeight : OrderedDict ℕ (List (BatchId H))
  /-- The proof batches by their id. -/
  proofBatches : OrderedDict (BatchId H) (ReceiptProofBatch H)

namespace ReceiptCache

variable {H : Type} [DecidableEq H]

/-- `ReceiptCache(max_blocks)`: at least one height is kept. -/
def new (H : Type) (maxBlocks : ℕ) : ReceiptCache H := ⟨max 1 maxBlocks, ∅, ∅, ∅, ∅, ∅⟩

/-- Forget the receipts and the proof batches of one height. -/
def dropHeight (cache : ReceiptCache H) (height : ℕ) : ReceiptCache H :=
  let receipts := (cache.byHeight.get? height).getD []
  let batches := (cache.proofBatchesByHeight.get? height).getD []
  { cache with
    byHeight := cache.byHeight.erase height
    byAddrSeq := receipts.foldl (fun dict item => dict.erase (item.1, item.2.1.seq)) cache.byAddrSeq
    byRef := receipts.foldl (fun dict item => dict.erase item.2.2) cache.byRef
    proofBatchesByHeight := cache.proofBatchesByHeight.erase height
    proofBatches := batches.foldl (fun dict batchId => dict.erase batchId) cache.proofBatches }

/-- The pruning loop over the sorted heights. -/
def pruneHeights (cache : ReceiptCache H) : List ℕ → ReceiptCache H
  | [] => cache
  | height :: heights =>
      if cache.maxBlocks < (height :: heights).length then
        pruneHeights (cache.dropHeight height) heights
      else cache

/-- `_prune`. -/
def prune (cache : ReceiptCache H) : ReceiptCache H :=
  cache.pruneHeights (cache.byHeight.keys.insertionSort (· ≤ ·))

/-- `add`. -/
def add (cache : ReceiptCache H) (senderAddr : Address) (receipt : Receipt H)
    (bundleRef : BundleRef H) : ReceiptCache H :=
  let height := receipt.headerLite.height
  prune { cache with
    byAddrSeq := cache.byAddrSeq.set (senderAddr, receipt.seq) receipt
    byRef := cache.byRef.set bundleRef receipt
    byHeight := cache.byHeight.set height
      ((cache.byHeight.get? height).getD [] ++ [(senderAddr, receipt, bundleRef)]) }

/-- `add_proof_batch`. -/
def addProofBatch (cache : ReceiptCache H) (height : ℕ) (batch : ReceiptProofBatch H) :
    ReceiptCache H :=
  let heightBatches := (cache.proofBatchesByHeight.get? height).getD []
  prune { cache with
    proofBatches := cache.proofBatches.set batch.batchId batch
    proofBatchesByHeight := cache.proofBatchesByHeight.set height
      (if batch.batchId ∈ heightBatches then heightBatches else heightBatches ++ [batch.batchId]) }

/-- `get_proof_batch`. -/
def getProofBatch (cache : ReceiptCache H) (batchId : BatchId H) : Option (ReceiptProofBatch H) :=
  cache.proofBatches.get? batchId

/-- `get_receipt`. -/
def getReceipt (cache : ReceiptCache H) (senderAddr : Address) (seq : ℕ) : Option (Receipt H) :=
  cache.byAddrSeq.get? (senderAddr, seq)

/-- `get_receipt_by_ref`. -/
def getReceiptByRef (cache : ReceiptCache H) (bundleRef : BundleRef H) : Option (Receipt H) :=
  cache.byRef.get? bundleRef

theorem maxBlocks_pruneHeights (cache : ReceiptCache H) (heights : List ℕ) :
    (cache.pruneHeights heights).maxBlocks = cache.maxBlocks := by
  induction heights generalizing cache with
  | nil => rfl
  | cons height heights induction =>
      rw [pruneHeights]
      split
      · rw [induction, dropHeight]
      · rfl

@[simp]
theorem maxBlocks_add (cache : ReceiptCache H) (senderAddr : Address) (receipt : Receipt H)
    (bundleRef : BundleRef H) : (cache.add senderAddr receipt bundleRef).maxBlocks =
      cache.maxBlocks :=
  maxBlocks_pruneHeights _ _

@[simp]
theorem maxBlocks_addProofBatch (cache : ReceiptCache H) (height : ℕ)
    (batch : ReceiptProofBatch H) : (cache.addProofBatch height batch).maxBlocks =
      cache.maxBlocks :=
  maxBlocks_pruneHeights _ _

end ReceiptCache

end EZChain
