import EZChain.Transfer.Acceptance
import EZChain.Transfer.Package

/-!
# Receiving and exporting a transfer

A wallet stores the value of an accepted package with the history that the validator returned; a
checkpoint of the wallet itself is replaced by the history the wallet already holds.  The store
keeps records in the order of their values and reads them back unchanged; its table of bundle
bodies is not read here.  An exported history ends at a checkpoint where the recipient itself held
exactly this value.
-/

namespace EZChain

open Checks

/-- `LocalValueStatus`. -/
inductive LocalValueStatus where
  | verifiedSpendable
  | pendingBundle
  | pendingConfirmation
  | receiptPending
  | receiptMissing
  | lockedForVerification
  | archived
  deriving DecidableEq

/-- `LocalValueRecord`. -/
structure LocalValueRecord (H : Type) where
  /-- The key of the record. -/
  recordId : String
  /-- The range that it holds. -/
  value : ValueRange
  /-- The history of the range. -/
  witnessV2 : WitnessV2 H
  /-- What the wallet may do with it. -/
  localStatus : LocalValueStatus
  /-- Height of the transfer that brought it, or 0. -/
  acquisitionHeight : ℕ

/-- `WalletAccountV2` with the tables of its database that receiving reads or writes. -/
structure WalletAccountV2 (H : Type) where
  /-- The account of the wallet. -/
  address : Address
  /-- The values that it holds or has held. -/
  records : List (LocalValueRecord H)
  /-- The stored checkpoints. -/
  checkpoints : List (Checkpoint H)
  /-- One header is known at a height. -/
  canonicalHeaders : OrderedDict ℕ (HeaderLite H)
  /-- Hashes of the received packages. -/
  acceptedTransferPackages : List H

namespace WalletAccountV2

variable {H : Type}

/-! ## Canonical headers -/

/-- `observe_canonical_header`: a header replaces the known one of its height. -/
def observeCanonicalHeader (wallet : WalletAccountV2 H) (header : HeaderLite H) :
    WalletAccountV2 H :=
  { wallet with canonicalHeaders := wallet.canonicalHeaders.set header.height header }

/-- `observe_canonical_block`. -/
def observeCanonicalBlock (wallet : WalletAccountV2 H) (block : BlockV2 H) : WalletAccountV2 H :=
  wallet.observeCanonicalHeader ⟨block.header.height, block.blockHash, block.header.stateRoot⟩

variable [DecidableEq H]

/-- `knows_canonical_header`. -/
def knowsCanonicalHeader (wallet : WalletAccountV2 H) (header : HeaderLite H) : Bool :=
  wallet.canonicalHeaders.get? header.height = some header

/-! ## Checkpoints -/

variable [Crypto H]

/-- `_checkpoint_matches_witness`. -/
def checkpointMatchesWitness (checkpoint : Checkpoint H) (witness : WitnessV2 H) : Bool :=
  checkpoint.matches witness.value witness.currentOwnerAddr &&
    witness.confirmedBundleChain.any fun unit =>
      unit.receipt.headerLite.height = checkpoint.checkpointHeight &&
        unit.receipt.headerLite.blockHash = checkpoint.checkpointBlockHash &&
        computeBundleHash unit.bundleSidecar = checkpoint.checkpointBundleHash

/-- `_local_witness_for_checkpoint`; the source searches the records in the same way whether or
not the checkpoint is among the stored ones. -/
def localWitnessForCheckpoint (wallet : WalletAccountV2 H) (checkpoint : Checkpoint H) :
    Option (WitnessV2 H) :=
  if checkpoint.ownerAddr ≠ wallet.address then none
  else
    (wallet.records.find? fun record =>
      record.value = ⟨checkpoint.valueBegin, checkpoint.valueEnd, checkpoint.begin_le_end⟩ &&
        checkpointMatchesWitness checkpoint record.witnessV2).map LocalValueRecord.witnessV2

/-- `has_local_checkpoint`. -/
def hasLocalCheckpoint (wallet : WalletAccountV2 H) (checkpoint : Checkpoint H) : Bool :=
  (wallet.localWitnessForCheckpoint checkpoint).isSome

/-- `trusted_checkpoints_for_witness`: the checkpoint at the end of a history, if it is local. -/
def trustedCheckpointsForWitness (wallet : WalletAccountV2 H) : WitnessV2 H → List (Checkpoint H)
  | .genesis _ _ _ _ => []
  | .checkpoint _ _ _ checkpoint =>
      if wallet.hasLocalCheckpoint checkpoint then [checkpoint] else []
  | .prior _ _ _ _ priorWitness => trustedCheckpointsForWitness wallet priorWitness

/-- `_rehydrate_local_checkpoint_anchors`. -/
def rehydrateLocalCheckpointAnchors (wallet : WalletAccountV2 H) : WitnessV2 H → WitnessV2 H
  | .genesis value owner chain anchor => .genesis value owner chain anchor
  | .checkpoint value owner chain checkpoint =>
      (wallet.localWitnessForCheckpoint checkpoint).getD (.checkpoint value owner chain checkpoint)
  | .prior value owner chain acquireTx priorWitness =>
      .prior value owner chain acquireTx (rehydrateLocalCheckpointAnchors wallet priorWitness)

/-! ## Receiving -/

section Records

omit [Crypto H] [DecidableEq H]

/-- Order of the stored records: the ends of the value, then the id. -/
def recordLe (left right : LocalValueRecord H) : Prop :=
  left.value.valueBegin < right.value.valueBegin ∨
    left.value.valueBegin = right.value.valueBegin ∧
      (left.value.valueEnd < right.value.valueEnd ∨
        left.value.valueEnd = right.value.valueEnd ∧ left.recordId ≤ right.recordId)

instance : DecidableRel (recordLe (H := H)) := fun _ _ => inferInstanceAs (Decidable (_ ∨ _))

/-- `_persist_records`: record ids are unique keys of the record table. -/
def persistRecords (wallet : WalletAccountV2 H) (records : List (LocalValueRecord H)) :
    Except String (WalletAccountV2 H) := do
  require (records.map LocalValueRecord.recordId).Nodup
    "UNIQUE constraint failed: value_records.record_id"
  pure { wallet with records := records.insertionSort recordLe }

end Records

/-- The part of `receive_transfer` before its first write: its checks and the new record.  The
record id stands for the fresh id that the source generates. -/
def checkedRecord (wallet : WalletAccountV2 H) (package : TransferPackage H)
    (context : ValidationContext H) (recordId : String) :
    Except String (LocalValueRecord H) := do
  require (transferPackageHash package ∉ wallet.acceptedTransferPackages)
    "transfer package already accepted"
  let result ← V2TransferValidator.validateTransferPackage context package (some wallet.address)
  let validated ← demand (if result.ok then result.acceptedWitness else none)
    (result.error.getD "transfer validation failed")
  let acceptedWitness := wallet.rehydrateLocalCheckpointAnchors validated
  let newest ← demand package.witnessV2.confirmedBundleChain.head? "tuple index out of range"
  pure
    { recordId := recordId
      value := package.targetValue
      witnessV2 := acceptedWitness
      localStatus := .verifiedSpendable
      acquisitionHeight := newest.receipt.headerLite.height }

/-- `receive_transfer`: the stored record and the wallet afterwards. -/
def receiveTransfer (wallet : WalletAccountV2 H) (package : TransferPackage H)
    (context : ValidationContext H) (recordId : String) :
    Except String (LocalValueRecord H × WalletAccountV2 H) := do
  let record ← wallet.checkedRecord package context recordId
  let persisted ← wallet.persistRecords (wallet.records ++ [record])
  let stored ← demand (persisted.records.find? fun item => item.recordId = recordId)
    "StopIteration"
  pure (stored, { persisted with
    acceptedTransferPackages :=
      transferPackageHash package :: persisted.acceptedTransferPackages })

/-! ## Exporting -/

section Export

omit [DecidableEq H]

/-- `_checkpoint_from_witness`. -/
def checkpointFromWitness (witness : WitnessV2 H) : Option (Checkpoint H) :=
  witness.confirmedBundleChain.head?.map fun latest =>
    { valueBegin := witness.value.valueBegin
      valueEnd := witness.value.valueEnd
      ownerAddr := witness.currentOwnerAddr
      checkpointHeight := latest.receipt.headerLite.height
      checkpointBlockHash := latest.receipt.headerLite.blockHash
      checkpointBundleHash := computeBundleHash latest.bundleSidecar
      begin_le_end := witness.value.begin_le_end }

/-- The checkpoint that replaces what is behind a history of the recipient, if there is one. -/
def cutPoint (recipientAddr : Address) (targetValue : ValueRange) (witness : WitnessV2 H) :
    Option (Checkpoint H) :=
  if witness.currentOwnerAddr = recipientAddr ∧ witness.value = targetValue then
    checkpointFromWitness witness
  else none

/-- `_trim_witness_for_recipient`. -/
def trimWitnessForRecipient (recipientAddr : Address) (targetValue : ValueRange) :
    WitnessV2 H → WitnessV2 H
  | .genesis value owner chain anchor =>
      match cutPoint recipientAddr targetValue (.genesis value owner chain anchor) with
      | some cut => .checkpoint value owner chain cut
      | none => .genesis value owner chain anchor
  | .checkpoint value owner chain anchor =>
      match cutPoint recipientAddr targetValue (.checkpoint value owner chain anchor) with
      | some cut => .checkpoint value owner chain cut
      | none => .checkpoint value owner chain anchor
  | .prior value owner chain acquireTx priorWitness =>
      match cutPoint recipientAddr targetValue
        (.prior value owner chain acquireTx priorWitness) with
      | some cut => .checkpoint value owner chain cut
      | none =>
          .prior value owner chain acquireTx
            (trimWitnessForRecipient recipientAddr targetValue priorWitness)

/-- The record loop of `export_transfer_package`. -/
def exportFrom (address : Address) (targetTx : OffChainTx) (targetValue : ValueRange) :
    List (LocalValueRecord H) → Except String (TransferPackage H)
  | [] => .error "no archived outgoing record matches target value"
  | record :: rest =>
      if record.localStatus = .archived ∧ record.value = targetValue ∧
          record.witnessV2.currentOwnerAddr = address then
        if targetTx.senderAddr ≠ address then
          .error "target tx sender does not match wallet address"
        else
          match record.witnessV2.confirmedBundleChain.head? with
          | none => exportFrom address targetTx targetValue rest
          | some latestUnit =>
              if (latestUnit.bundleSidecar.txList.filter fun tx => tx = targetTx).length ≠ 1 then
                exportFrom address targetTx targetValue rest
              else
                .ok
                  { targetTx := targetTx
                    targetValue := targetValue
                    witnessV2 := trimWitnessForRecipient targetTx.recipientAddr targetValue
                      record.witnessV2 }
      else exportFrom address targetTx targetValue rest

/-- `export_transfer_package`. -/
def exportTransferPackage (wallet : WalletAccountV2 H) (targetTx : OffChainTx)
    (targetValue : ValueRange) : Except String (TransferPackage H) :=
  exportFrom wallet.address targetTx targetValue wallet.records

end Export

end WalletAccountV2

end EZChain
