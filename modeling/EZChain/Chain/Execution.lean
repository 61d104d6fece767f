import EZChain.Chain.Acceptance

/-!
# Executed blocks

Execution of pending bundles assembles a block whose entries follow the tree keys of their
senders.  When the bundles passed the pool's checks and none has expired, the block passes the
checks of `apply_block`, and execution leaves the ledger that `apply_block` computes.
-/

namespace EZChain

namespace ChainStateV2

variable {H : Type} [Crypto H]

/-! ## Ordering -/

section Ordering

theorem pairwise_sortSubmissions (submissions : List (BundleSubmission H)) :
    (sortSubmissions submissions).Pairwise fun left right =>
      keyLe (computeAddrKey H left.sidecar.senderAddr)
        (computeAddrKey H right.sidecar.senderAddr) := by
  have total : Std.Total fun left right : BundleSubmission H =>
      keyLe (computeAddrKey H left.sidecar.senderAddr)
        (computeAddrKey H right.sidecar.senderAddr) := ⟨fun _ _ => Std.Total.total _ _⟩
  have trans : IsTrans (BundleSubmission H) fun left right =>
      keyLe (computeAddrKey H left.sidecar.senderAddr)
        (computeAddrKey H right.sidecar.senderAddr) := ⟨fun _ _ _ => trans_of keyLe⟩
  exact List.pairwise_insertionSort _ _

theorem perm_sortSubmissions (submissions : List (BundleSubmission H)) :
    (sortSubmissions submissions).Perm submissions :=
  List.perm_insertionSort _ _

theorem sortEntries_map_prepareEntry (state : ChainStateV2 H) (height : ℕ) (blockHash : H)
    (submissions : List (BundleSubmission H)) :
    sortEntries ((sortSubmissions submissions).map (state.prepareEntry height blockHash)) =
      (sortSubmissions submissions).map (state.prepareEntry height blockHash) := by
  apply List.Pairwise.insertionSort_eq
  exact List.pairwise_map.mpr (pairwise_sortSubmissions submissions)

theorem sortEntries_prepareEntries (state : ChainStateV2 H) (height : ℕ) (blockHash : H)
    (submissions : List (BundleSubmission H)) :
    sortEntries (state.prepareEntries submissions height blockHash).1 =
      (sortSubmissions submissions).map (state.prepareEntry height blockHash) := by
  symm
  exact List.map_insertionSort
    (fun left right : BundleSubmission H => keyLe (computeAddrKey H left.sidecar.senderAddr)
      (computeAddrKey H right.sidecar.senderAddr))
    (fun left right : DiffEntry H => keyLe left.addrKey right.addrKey)
    (state.prepareEntry height blockHash) submissions fun _ _ _ _ => Iff.rfl

end Ordering

/-! ## The executed block -/

section Block

variable (state : ChainStateV2 H) (submissions : List (BundleSubmission H)) (timestamp : ℕ)
  (proposerSig consensusExtra : Bytes)

/-- Entries of the executed block, in the order of their tree keys. -/
theorem diffEntries_executedBlock :
    (state.executedBlock submissions timestamp proposerSig consensusExtra).diffPackage.diffEntries =
      (sortSubmissions submissions).map (state.prepareEntry (state.currentHeight + 1)
        (state.executedBlock submissions timestamp proposerSig consensusExtra).blockHash) :=
  state.sortEntries_map_prepareEntry _ _ submissions

/-- The block hash of the provisional entries is the block hash of the final entries. -/
theorem deriveBlockHash_executedBlock :
    deriveBlockHash state.version state.chainId (state.currentHeight + 1) state.currentBlockHash
        timestamp proposerSig consensusExtra
        (state.executedBlock submissions timestamp proposerSig
          consensusExtra).diffPackage.diffEntries =
      (state.executedBlock submissions timestamp proposerSig consensusExtra).blockHash := by
  have provisional_hash :
      (state.executedBlock submissions timestamp proposerSig consensusExtra).blockHash =
        deriveBlockHash state.version state.chainId (state.currentHeight + 1)
          state.currentBlockHash timestamp proposerSig consensusExtra
          ((sortSubmissions submissions).map
            (state.prepareEntry (state.currentHeight + 1) Crypto.zeroHash32)) := by
    rw [← sortEntries_prepareEntries]
    rfl
  rw [diffEntries_executedBlock, provisional_hash]
  simp only [deriveBlockHash, List.map_map, Function.comp_def, prepareEntry]

theorem diffItems_executedBlock :
    diffItems (state.executedBlock submissions timestamp proposerSig consensusExtra) =
      (sortSubmissions submissions).map fun submission =>
        (state.prepareEntry (state.currentHeight + 1)
          (state.executedBlock submissions timestamp proposerSig consensusExtra).blockHash
          submission, submission.sidecar, submission.senderPublicKeyPem) := by
  rw [diffItems, diffEntries_executedBlock]
  simp only [executedBlock, List.zip_map']

end Block

/-! ## Ready submissions -/

/-- A submission that passed the checks of the pool and follows the sender's confirmed seq. -/
structure SubmissionReady (state : ChainStateV2 H) (submission : BundleSubmission H) : Prop where
  signer : Crypto.addressFromPublicKeyPem H submission.senderPublicKeyPem =
    .ok submission.sidecar.senderAddr
  bundleHash : submission.envelope.bundleHash = computeBundleHash submission.sidecar
  claimSet : submission.envelope.claimSetHash = none ∨ submission.envelope.claimSetHash =
    some (claimRangeSetHash (claimRangeSetFromSidecar submission.sidecar))
  signature : verifyBundleEnvelope submission.envelope submission.senderPublicKeyPem = true
  seq : submission.envelope.seq = state.confirmedSeq submission.sidecar.senderAddr + 1

/-- Submissions that one block can pack. -/
structure SubmissionsReady (state : ChainStateV2 H) (submissions : List (BundleSubmission H)) :
    Prop where
  ready : ∀ submission ∈ submissions, state.SubmissionReady submission
  sendersNodup : (submissions.map fun submission => submission.sidecar.senderAddr).Nodup

/-- Every known account has a head. -/
def LeavesHaveHeads (state : ChainStateV2 H) : Prop :=
  ∀ addr leaf, state.accountLeaves.get? addr = some leaf → leaf.headRef ≠ none

section Ready

variable {state : ChainStateV2 H} {submissions : List (BundleSubmission H)}

theorem SubmissionsReady.sorted (ready : state.SubmissionsReady submissions) :
    state.SubmissionsReady (sortSubmissions submissions) where
  ready submission member :=
    ready.ready submission ((perm_sortSubmissions submissions).mem_iff.mp member)
  sendersNodup :=
    ((perm_sortSubmissions submissions).map _).nodup_iff.mpr ready.sendersNodup

theorem SubmissionsReady.nodup_keys (ready : state.SubmissionsReady submissions)
    (ideal : IdealAddrKeys H) :
    (submissions.map fun submission =>
      computeAddrKey H submission.sidecar.senderAddr).Nodup := by
  have keys_nodup := ready.sendersNodup.map_on (f := computeAddrKey H) (by
    intro left left_mem right right_mem key_eq
    obtain ⟨left_submission, left_pending, rfl⟩ := List.mem_map.mp left_mem
    obtain ⟨right_submission, right_pending, rfl⟩ := List.mem_map.mp right_mem
    exact ideal ⟨_, (ready.ready _ left_pending).signer⟩ ⟨_, (ready.ready _ right_pending).signer⟩
      key_eq)
  simpa only [List.map_map, Function.comp_def] using keys_nodup

/-- The block built from ready, unexpired submissions passes the checks of `apply_block` when the
senders have different tree keys. -/
theorem executedBlock_accepted_of_nodup_keys (ready : state.SubmissionsReady submissions)
    (keys_nodup : (submissions.map fun submission =>
      computeAddrKey H submission.sidecar.senderAddr).Nodup)
    (heads : state.LeavesHaveHeads)
    (alive : ∀ submission ∈ submissions, state.currentHeight + 1 ≤ submission.envelope.expiryHeight)
    (timestamp : ℕ) (proposerSig consensusExtra : Bytes) :
    state.BlockAccepted
      (state.executedBlock submissions timestamp proposerSig consensusExtra) where
  version := rfl
  chainId := rfl
  height := rfl
  prevBlockHash := rfl
  sorted := by
    rw [diffEntries_executedBlock, sortEntries_map_prepareEntry]
  keysNodup := by
    rw [diffEntries_executedBlock, List.map_map]
    exact ((perm_sortSubmissions submissions).map _).nodup_iff.mpr keys_nodup
  keysLength := by
    rw [diffEntries_executedBlock]
    simp [executedBlock]
  blockHash := state.deriveBlockHash_executedBlock submissions timestamp proposerSig consensusExtra
  entries := by
    rw [diffItems_executedBlock]
    intro item member
    obtain ⟨submission, submission_mem, rfl⟩ := List.mem_map.mp member
    have submission_ready := ready.sorted.ready submission submission_mem
    exact
      { signer := submission_ready.signer
        sender := rfl
        bundleHash := submission_ready.bundleHash
        envelopeHash := submission_ready.bundleHash
        claimSet := submission_ready.claimSet
        leafClaimSet := rfl
        signature := submission_ready.signature
        notExpired :=
          alive submission ((perm_sortSubmissions submissions).mem_iff.mp submission_mem)
        prevRef := rfl
        seq := submission_ready.seq
        known := heads submission.sidecar.senderAddr
        headRef := ⟨_, rfl, submission_ready.bundleHash, rfl⟩ }
  sendersNodup := by
    rw [diffEntries_executedBlock, List.map_map]
    exact ready.sorted.sendersNodup
  diffRoot := rfl
  stateRoot := rfl

/-- The block built from ready, unexpired submissions passes the checks of `apply_block`. -/
theorem executedBlock_accepted (ideal : IdealAddrKeys H)
    (ready : state.SubmissionsReady submissions) (heads : state.LeavesHaveHeads)
    (alive : ∀ submission ∈ submissions, state.currentHeight + 1 ≤ submission.envelope.expiryHeight)
    (timestamp : ℕ) (proposerSig consensusExtra : Bytes) :
    state.BlockAccepted
      (state.executedBlock submissions timestamp proposerSig consensusExtra) :=
  executedBlock_accepted_of_nodup_keys ready (ready.nodup_keys ideal) heads alive timestamp
    proposerSig consensusExtra

end Ready

/-! ## The executed state -/

section State

variable [DecidableEq H]

theorem executedReceipts_eq (height : ℕ) (blockHash stateRoot : H) (tree : SparseMerkleTree H 256)
    (prevRefs : OrderedDict Address (Option (BundleRef H))) (entries : List (DiffEntry H))
    (receipts : OrderedDict Address (Receipt H)) (cache : ReceiptCache H) :
    executedReceipts height blockHash stateRoot tree prevRefs entries receipts cache =
      (receiptDict entries (executedReceipt height blockHash stateRoot tree prevRefs) receipts,
        addReceipts cache entries (executedReceipt height blockHash stateRoot tree prevRefs)) := by
  induction entries generalizing receipts cache with
  | nil => rfl
  | cons entry entries induction => exact induction _ _

omit [DecidableEq H] in
/-- The previous references collected with the entries are the heads before the block. -/
theorem get?_prepareEntries (state : ChainStateV2 H) (submissions : List (BundleSubmission H))
    (height : ℕ) (blockHash : H) {submission : BundleSubmission H}
    (member : submission ∈ submissions) :
    (state.prepareEntries submissions height blockHash).2.get? submission.sidecar.senderAddr =
      some (state.headRefOf submission.sidecar.senderAddr) := by
  have written : ∀ (dict : OrderedDict Address (Option (BundleRef H)))
      (pairs : List (Address × Option (BundleRef H))),
      (∀ pair ∈ pairs, pair.2 = state.headRefOf pair.1) →
      ∀ addr ∈ pairs.map Prod.fst,
        (dict.setAll pairs).get? addr = some (state.headRefOf addr) := by
    intro dict pairs heads addr addr_mem
    induction pairs using List.reverseRecOn with
    | nil => cases addr_mem
    | append_singleton pairs pair induction =>
        rw [OrderedDict.setAll_append, OrderedDict.setAll_cons, OrderedDict.setAll_nil,
          OrderedDict.get?_set]
        split
        · next key_eq => rw [heads pair (by simp), key_eq]
        · next key_ne =>
            apply induction (fun other other_mem => heads other (List.mem_append_left _ other_mem))
            simpa [Ne.symm key_ne] using addr_mem
  apply written
  · intro pair pair_mem
    obtain ⟨other, _, rfl⟩ := List.mem_map.mp pair_mem
    rfl
  · simp only [List.map_map, List.mem_map, Function.comp_def]
    exact ⟨submission, member, rfl⟩

/-- Execution leaves the state of the applied block, except for the pool. -/
theorem executeSubmissions_eq (state : ChainStateV2 H) (submissions : List (BundleSubmission H))
    (timestamp : ℕ) (proposerSig consensusExtra : Bytes) (removeFromPool : Bool) :
    let block := state.executedBlock submissions timestamp proposerSig consensusExtra
    state.executeSubmissions submissions timestamp proposerSig consensusExtra removeFromPool =
      ((block, state.blockReceipts block),
        { state.nextState block with
          bundlePool :=
            if removeFromPool then
              submissions.foldl (fun pool submission =>
                pool.removeFinalizedBundle submission.sidecar.senderAddr submission.envelope.seq
                  submission.envelope.bundleHash) state.bundlePool
            else state.bundlePool }) := by
  intro block
  have receipt_eq : ∀ entry ∈ block.diffPackage.diffEntries,
      executedReceipt block.header.height block.blockHash block.header.stateRoot
          (setLeaves state.tree block.diffPackage.diffEntries)
          (state.prepareEntries (sortSubmissions submissions) block.header.height
            block.blockHash).2 entry =
        state.appliedReceipt block (setLeaves state.tree block.diffPackage.diffEntries) entry := by
    intro entry member
    rw [diffEntries_executedBlock] at member
    obtain ⟨submission, submission_mem, rfl⟩ := List.mem_map.mp member
    have prev_eq := state.get?_prepareEntries (sortSubmissions submissions) block.header.height
      block.blockHash submission_mem
    simp only [executedReceipt, appliedReceipt, prepareEntry, prev_eq, Option.join_some]
  have receipts_eq : receiptDict block.diffPackage.diffEntries
      (executedReceipt block.header.height block.blockHash block.header.stateRoot
        (setLeaves state.tree block.diffPackage.diffEntries)
        (state.prepareEntries (sortSubmissions submissions) block.header.height
          block.blockHash).2) ∅ = state.blockReceipts block := by
    unfold blockReceipts receiptDict
    congr 1
    exact List.map_congr_left fun entry member => by rw [receipt_eq entry member]
  have cache_eq : ∀ cache : ReceiptCache H, addReceipts cache block.diffPackage.diffEntries
      (executedReceipt block.header.height block.blockHash block.header.stateRoot
        (setLeaves state.tree block.diffPackage.diffEntries)
        (state.prepareEntries (sortSubmissions submissions) block.header.height
          block.blockHash).2) =
      addReceipts cache block.diffPackage.diffEntries
        (state.appliedReceipt block (setLeaves state.tree block.diffPackage.diffEntries)) := by
    intro cache
    exact List.foldl_ext _ _ _ fun cache entry member => by rw [receipt_eq entry member]
  simp only [executeSubmissions, executedReceipts_eq]
  rw [receipts_eq, cache_eq]
  rfl

end State

end ChainStateV2

end EZChain
