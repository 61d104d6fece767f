import EZChain.Wallet.Database

/-!
# Wallet operations

A bundle reserves the records that cover its outgoing ranges: they are split at the ends of the
ranges and wait for the receipt.  The receipt archives the outgoing segments and returns the other
ones; a rollback returns all of them.
-/

namespace EZChain

open Checks

/-! ## Splitting a range -/

/-- Ranges sorted by their ends. -/
def sortRanges (ranges : List ValueRange) : List ValueRange := ranges.insertionSort rangeLe

/-- Two neighbours in the list intersect. -/
def neighboursIntersect (ordered : List ValueRange) : Bool :=
  (ordered.zip ordered.tail).any fun pair => pair.1.intersects pair.2

/-- The part of a range from a cursor up to an end, if it is not empty. -/
def gapBetween (cursor valueEnd : ℕ) : List (ValueRange × Bool) :=
  if nonempty : cursor ≤ valueEnd then [(⟨cursor, valueEnd, nonempty⟩, false)] else []

/-- The part of a range from a cursor up to the start of a target, if it is not empty. -/
def gapBefore (cursor : ℕ) (target : ValueRange) : List (ValueRange × Bool) :=
  if before : cursor < target.valueBegin then
    [(⟨cursor, target.valueBegin - 1, Nat.le_sub_one_of_lt before⟩, false)]
  else []

/-- The segment loop of `_partition_range`; a segment is marked when it is a target. -/
def partitionFrom (cursor valueEnd : ℕ) : List ValueRange → List (ValueRange × Bool)
  | [] => gapBetween cursor valueEnd
  | target :: targets =>
      gapBefore cursor target ++
        (target, true) :: partitionFrom (target.valueEnd + 1) valueEnd targets

/-- `_partition_range`. -/
def partitionRange (source : ValueRange) (targets : List ValueRange) :
    Except String (List (ValueRange × Bool)) :=
  if targets = [] then .ok [(source, false)]
  else do
    let orderedTargets := sortRanges targets
    require (∀ target ∈ orderedTargets, source.containsRange target = true)
      "outgoing range must be contained in source value"
    require (neighboursIntersect orderedTargets = false)
      "outgoing ranges cannot overlap inside one source value"
    pure (partitionFrom source.valueBegin source.valueEnd orderedTargets)

/-- `_ensure_non_overlapping_targets`. -/
def ensureNonOverlappingTargets (targets : List ValueRange) : Except String (List ValueRange) := do
  let ordered := sortRanges targets
  require (neighboursIntersect ordered = false) "bundle contains overlapping outgoing value ranges"
  pure ordered

namespace WitnessV2

variable {H : Type}

/-- `_clone_witness_for_value`. -/
def cloneForValue (value : ValueRange) : WitnessV2 H → WitnessV2 H
  | genesis _ owner chain anchor => genesis value owner chain anchor
  | checkpoint _ owner chain anchor => checkpoint value owner chain anchor
  | prior _ owner chain acquireTx priorWitness => prior value owner chain acquireTx priorWitness

/-- `_append_confirmed_unit`. -/
def appendConfirmedUnit (value : ValueRange) (unit : ConfirmedBundleUnit H) :
    WitnessV2 H → WitnessV2 H
  | genesis _ owner chain anchor => genesis value owner (unit :: chain) anchor
  | checkpoint _ owner chain anchor => checkpoint value owner (unit :: chain) anchor
  | prior _ owner chain acquireTx priorWitness =>
      prior value owner (unit :: chain) acquireTx priorWitness

@[simp]
theorem confirmedBundleChain_cloneForValue (value : ValueRange) (witness : WitnessV2 H) :
    (witness.cloneForValue value).confirmedBundleChain = witness.confirmedBundleChain := by
  cases witness <;> rfl

@[simp]
theorem confirmedBundleChain_appendConfirmedUnit (value : ValueRange)
    (unit : ConfirmedBundleUnit H) (witness : WitnessV2 H) :
    (witness.appendConfirmedUnit value unit).confirmedBundleChain =
      unit :: witness.confirmedBundleChain := by
  cases witness <;> rfl

/-- The same history under another owner. -/
def ownedBy (ownerAddr : Address) : WitnessV2 H → WitnessV2 H
  | genesis value _ chain anchor => genesis value ownerAddr chain anchor
  | checkpoint value _ chain anchor => checkpoint value ownerAddr chain anchor
  | prior value _ chain acquireTx priorWitness =>
      prior value ownerAddr chain acquireTx priorWitness

/-- `_iter_witness_sidecars`. -/
def sidecars (witness : WitnessV2 H) : List BundleSidecar :=
  witness.allUnits.map ConfirmedBundleUnit.bundleSidecar

end WitnessV2

/-- The arguments of `build_bundle`, with the signature that the private key gives and the fresh
record ids that the source generates. -/
structure BundleCall where
  /-- The transfers of the bundle. -/
  txList : List OffChainTx
  /-- The key that signs. -/
  publicKeyPem : Bytes
  chainId : ℕ
  /-- The sequence number that the caller chooses. -/
  seq : ℕ
  expiryHeight : ℕ
  fee : ℕ
  antiSpamNonce : ℕ
  createdAt : ℤ
  /-- The signature that the private key gives. -/
  sig : Bytes
  /-- The fresh record ids, in the order of their use. -/
  recordIds : ℕ → String

/-- The records after a split, and the ids of the reserved and of the outgoing ones. -/
structure SplitRecords (H : Type) where
  /-- The records after the split. -/
  updatedRecords : List (LocalValueRecord H)
  /-- The ids of the reserved records. -/
  pendingRecordIds : List String
  /-- The ids of the reserved records that leave the wallet. -/
  outgoingRecordIds : List String

namespace LocalWalletDB

variable {H : Type}

/-! ## Building a bundle -/

/-- One target of `_assign_targets_to_records`: the first spendable record that covers it and has no
intersecting target yet. -/
def assignTarget (eligible : List (LocalValueRecord H))
    (assignments : OrderedDict String (List ValueRange)) (target : ValueRange) :
    Except String (OrderedDict String (List ValueRange)) := do
  let selected ← demand (eligible.find? fun record =>
      record.value.containsRange target &&
        !((assignments.get? record.recordId).getD []).any fun existing =>
          existing.intersects target)
    "no spendable record covers target range"
  pure (assignments.set selected.recordId
    ((assignments.get? selected.recordId).getD [] ++ [target]))

/-- `_assign_targets_to_records`. -/
def assignTargetsToRecords (db : LocalWalletDB H) (targets : List ValueRange) :
    Except String (OrderedDict String (List ValueRange)) :=
  let eligible := db.records.filter fun record => record.localStatus = .verifiedSpendable
  targets.foldlM (assignTarget eligible) ∅

/-- A segment of a reserved record under a new id. -/
def reservedSegment (record : LocalValueRecord H) (recordId : String) (segment : ValueRange) :
    LocalValueRecord H where
  recordId := recordId
  value := segment
  witnessV2 := record.witnessV2.cloneForValue segment
  localStatus := .pendingBundle
  acquisitionHeight := record.acquisitionHeight

/-- The split loop of `build_bundle`; the index counts the generated record ids. -/
def splitRecords (recordIds : ℕ → String) (assignments : OrderedDict String (List ValueRange)) :
    List (LocalValueRecord H) → ℕ → Except String (SplitRecords H)
  | [], _ => pure ⟨[], [], []⟩
  | record :: rest, index => do
      let assignedTargets := sortRanges ((assignments.get? record.recordId).getD [])
      if assignedTargets = [] then
        let split ← splitRecords recordIds assignments rest index
        pure { split with updatedRecords := record :: split.updatedRecords }
      else
        let segments ← partitionRange record.value assignedTargets
        let split ← splitRecords recordIds assignments rest (index + segments.length)
        let named := segments.zipIdx index
        pure
          { updatedRecords := named.map (fun item =>
              reservedSegment record (recordIds item.2) item.1.1) ++ split.updatedRecords
            pendingRecordIds := named.map (fun item => recordIds item.2) ++ split.pendingRecordIds
            outgoingRecordIds := (named.filter fun item => item.1.2).map
              (fun item => recordIds item.2) ++ split.outgoingRecordIds }

section Crypto

variable [Crypto H]

/-- The signed envelope of a bundle. -/
def bundleEnvelope (call : BundleCall) (seq_pos : 0 < call.seq) (sidecar : BundleSidecar) :
    BundleEnvelope H where
  version := 2
  chainId := call.chainId
  seq := call.seq
  expiryHeight := call.expiryHeight
  fee := call.fee
  antiSpamNonce := call.antiSpamNonce
  bundleHash := computeBundleHash sidecar
  claimSetHash := some (claimRangeSetHash (claimRangeSetFromSidecar sidecar))
  sig := call.sig
  seq_pos := seq_pos

/-- The sidecar and the envelope, whose constructors check the senders and the sequence number. -/
def sealBundle (db : LocalWalletDB H) (call : BundleCall) :
    Except String (BundleSidecar × BundleEnvelope H) :=
  if sender_eq : ∀ tx ∈ call.txList, tx.senderAddr = db.address then
    if seq_pos : 0 < call.seq then
      let sidecar : BundleSidecar := ⟨db.address, call.txList, sender_eq⟩
      .ok (sidecar, bundleEnvelope call seq_pos sidecar)
    else .error "invalid envelope numeric field"
  else .error "bundle sidecar sender mismatch"

/-- The pending context of a sealed bundle. -/
def pendingContext (call : BundleCall) (outgoingValues : List ValueRange) (split : SplitRecords H)
    (sidecar : BundleSidecar) (envelope : BundleEnvelope H) : PendingBundleContext H where
  senderAddr := sidecar.senderAddr
  bundleHash := envelope.bundleHash
  seq := envelope.seq
  envelope := envelope
  sidecar := sidecar
  senderPublicKeyPem := call.publicKeyPem
  pendingRecordIds := split.pendingRecordIds
  outgoingRecordIds := split.outgoingRecordIds
  outgoingValues := outgoingValues
  createdAt := call.createdAt
  seq_pos := envelope.seq_pos

variable [DecidableEq H]

/-- `build_bundle`. -/
def buildBundle (db : LocalWalletDB H) (call : BundleCall) :
    Except String (Planned H (BundleSubmission H × PendingBundleContext H)) := do
  let senderAddr ← Crypto.addressFromPublicKeyPem H call.publicKeyPem
  require (senderAddr = db.address) "public key does not match wallet address"
  require (db.pendingBundles.keys = []) "wallet already has a pending bundle"
  require (call.txList ≠ []) "tx_list cannot be empty"
  let outgoingValues ← ensureNonOverlappingTargets (call.txList.flatMap OffChainTx.valueList)
  let assignments ← db.assignTargetsToRecords outgoingValues
  let split ← splitRecords call.recordIds assignments db.records 0
  let (sidecar, envelope) ← db.sealBundle call
  let context := pendingContext call outgoingValues split sidecar envelope
  pure ((⟨envelope, sidecar, call.publicKeyPem⟩, context),
    [.saveSidecar sidecar, .savePendingBundle context, .replaceValueRecords split.updatedRecords])

end Crypto

/-! ## Receipts and rollbacks -/

/-- `observe_canonical_header`. -/
def observeCanonicalHeader (header : HeaderLite H) : Except String (Planned H Unit) :=
  .ok ((), [.saveCanonicalHeader header])

/-- A record that learns of a unit and gets a status. -/
def appendToRecord (unit : ConfirmedBundleUnit H) (status : LocalValueStatus)
    (record : LocalValueRecord H) : LocalValueRecord H :=
  { record with
    witnessV2 := record.witnessV2.appendConfirmedUnit record.value unit
    localStatus := status }

/-- A segment of a record that learned of a unit, under a new id and in the wallet's name. -/
def appliedSegment (address : Address) (unit : ConfirmedBundleUnit H) (record : LocalValueRecord H)
    (recordId : String) (segment : ValueRange × Bool) : LocalValueRecord H where
  recordId := recordId
  value := segment.1
  witnessV2 := (record.witnessV2.appendConfirmedUnit segment.1 unit).ownedBy address
  localStatus := if segment.2 then .archived else .verifiedSpendable
  acquisitionHeight := record.acquisitionHeight

/-- The record loop of `_apply_confirmed_unit_to_records`; the index counts the generated ids. -/
def applyConfirmedUnitToRecords (address : Address) (unit : ConfirmedBundleUnit H)
    (outgoingValues : List ValueRange) (pendingRecordIds outgoingRecordIds : List String)
    (recordIds : ℕ → String) :
    List (LocalValueRecord H) → ℕ → Except String (List (LocalValueRecord H))
  | [], _ => pure []
  | record :: rest, index =>
      let keep (updated : LocalValueRecord H) : Except String (List (LocalValueRecord H)) := do
        let others ← applyConfirmedUnitToRecords address unit outgoingValues pendingRecordIds
          outgoingRecordIds recordIds rest index
        pure (updated :: others)
      let containedTargets := (sortRanges outgoingValues).filter fun target =>
        record.value.containsRange target
      if record.localStatus = .archived then keep record
      else if record.recordId ∈ pendingRecordIds then
        keep (appendToRecord unit
          (if record.recordId ∈ outgoingRecordIds then .archived else .verifiedSpendable) record)
      else if record.localStatus = .pendingBundle then keep record
      else if unit.receipt.headerLite.height ≤ record.acquisitionHeight then keep record
      else if containedTargets = [] then keep (appendToRecord unit .verifiedSpendable record)
      else do
        let segments ← partitionRange record.value containedTargets
        let others ← applyConfirmedUnitToRecords address unit outgoingValues pendingRecordIds
          outgoingRecordIds recordIds rest (index + segments.length)
        pure ((segments.zipIdx index).map (fun item =>
          appliedSegment address unit record (recordIds item.2) item.1) ++ others)

/-- `mark_receipt_missing`. -/
def markReceiptMissing (db : LocalWalletDB H) (seq : ℕ) :
    Except String (Planned H (PendingBundleContext H)) := do
  let context ← demand (db.getPendingBundle seq) "no pending bundle matches seq"
  pure (context, [.replaceValueRecords (db.records.map fun record =>
    if record.recordId ∈ context.pendingRecordIds ∧ record.localStatus = .pendingBundle then
      { record with localStatus := .receiptMissing }
    else record)])

/-- `rollback_pending_bundle`. -/
def rollbackPendingBundle (db : LocalWalletDB H) (seq : ℕ) :
    Except String (Planned H (PendingBundleContext H)) := do
  let context ← demand (db.getPendingBundle seq) "no pending bundle matches seq"
  let updatedRecords := db.records.map fun record =>
    if record.recordId ∈ context.pendingRecordIds then
      { record with localStatus := .verifiedSpendable }
    else record
  pure (context, [.deletePendingBundle seq, .replaceValueRecords updatedRecords])

variable [Crypto H] [DecidableEq H]

/-- The check of a receipt's previous reference against the stored units. -/
def checkPrevRef (db : LocalWalletDB H) (receipt : Receipt H) : Except String Unit :=
  if receipt.seq = 1 then require (receipt.prevRef = none) "receipt prev_ref mismatch"
  else do
    let previousUnit ← demand (db.getConfirmedUnit (receipt.seq - 1))
      "missing previous confirmed unit for receipt"
    require (some (confirmedRef previousUnit) = receipt.prevRef) "receipt prev_ref mismatch"

/-- `on_receipt_confirmed`. -/
def onReceiptConfirmed (db : LocalWalletDB H) (receipt : Receipt H) :
    Except String (Planned H (ConfirmedBundleUnit H)) := do
  let context ← demand (db.getPendingBundle receipt.seq) "no pending bundle matches receipt seq"
  require (db.knowsCanonicalHeader receipt.headerLite = true)
    "receipt header is not known canonical"
  let confirmedUnit : ConfirmedBundleUnit H := ⟨receipt, context.sidecar⟩
  db.checkPrevRef receipt
  let proof ← demand receipt.accountStateProof "receipt single proof is required for wallet apply"
  require (verifyProof receipt.headerLite.stateRoot (computeAddrKey H db.address).bytes
    (hashAccountLeaf (reconstructedLeaf confirmedUnit)) proof 256 = true)
    "receipt account state proof does not verify"
  -- No outgoing value is listed, so no record is split and no id is generated.
  let updatedRecords ← applyConfirmedUnitToRecords db.address confirmedUnit []
    context.pendingRecordIds context.outgoingRecordIds (fun _ => "") db.records 0
  pure (confirmedUnit, [.saveReceipt receipt context.bundleHash, .saveConfirmedUnit confirmedUnit,
    .deletePendingBundle receipt.seq, .replaceValueRecords updatedRecords])

/-- `apply_sender_confirmed_unit`. -/
def applySenderConfirmedUnit (db : LocalWalletDB H) (confirmedUnit : ConfirmedBundleUnit H)
    (outgoingValues : List ValueRange) (recordIds : ℕ → String) :
    Except String (Planned H (List (LocalValueRecord H))) := do
  let updatedRecords ← applyConfirmedUnitToRecords db.address confirmedUnit outgoingValues [] []
    recordIds db.records 0
  pure (updatedRecords.insertionSort WalletAccountV2.recordLe,
    [.replaceValueRecords updatedRecords])

/-! ## Acquiring values -/

omit [Crypto H] [DecidableEq H] in
/-- `add_genesis_value`. -/
def addGenesisValue (db : LocalWalletDB H) (value : ValueRange) (recordId : String) :
    Except String (Planned H (LocalValueRecord H)) :=
  let record : LocalValueRecord H :=
    { recordId := recordId
      value := value
      witnessV2 := .genesis value db.address [] ⟨db.genesisBlockHash, db.address, value.valueBegin,
        value.valueEnd, value.begin_le_end_int⟩
      localStatus := .verifiedSpendable
      acquisitionHeight := 0 }
  .ok (record, [.replaceValueRecords (db.records ++ [record])])

/-- `receive_transfer`. -/
def receiveTransfer (db : LocalWalletDB H) (package : TransferPackage H)
    (context : ValidationContext H) (recordId : String) :
    Except String (Planned H (LocalValueRecord H)) := do
  let record ← db.checkedRecord package context recordId
  pure (record, package.witnessV2.sidecars.map Transaction.saveSidecar ++
    [.replaceValueRecords (db.records ++ [record]),
      .saveAcceptedTransferPackage (transferPackageHash package)])

end LocalWalletDB

end EZChain
