import EZChain.Wallet.Receive

/-!
# Wallet database

All tables of one wallet's database that its operations read or write.  The wallet keeps nothing
else between two calls.  An operation is a list of database transactions, which commit one after
another; the counters of sidecar references are derived data and are left out.
-/

namespace EZChain

open Checks

/-- `PendingBundleContext`. -/
structure PendingBundleContext (H : Type) where
  senderAddr : Address
  bundleHash : H
  seq : ℕ
  envelope : BundleEnvelope H
  sidecar : BundleSidecar
  /-- The key that signed. -/
  senderPublicKeyPem : Bytes
  /-- The reserved records. -/
  pendingRecordIds : List String
  /-- The reserved records that leave the wallet. -/
  outgoingRecordIds : List String
  /-- The ranges that leave the wallet. -/
  outgoingValues : List ValueRange
  createdAt : ℤ
  /-- Sequence numbers start at 1. -/
  seq_pos : 0 < seq

/-- `LocalWalletDB`, with the wallet state that is read back from it. -/
structure LocalWalletDB (H : Type) extends WalletAccountV2 H where
  /-- The hash that genesis anchors name. -/
  genesisBlockHash : H
  /-- The bundles that histories refer to, by hash. -/
  bundleSidecars : OrderedDict H BundleSidecar
  /-- A receipt with its reference, which is a unique column. -/
  receipts : OrderedDict ℕ (BundleRef H × Receipt H)
  /-- The account's confirmed bundles, by reference. -/
  confirmedUnits : OrderedDict (BundleRef H) (ConfirmedBundleUnit H)
  /-- The bundles that wait for a receipt, by sequence number. -/
  pendingBundles : OrderedDict ℕ (PendingBundleContext H)
  /-- Record ids are the primary keys of the record table. -/
  recordIds_nodup : (records.map LocalValueRecord.recordId).Nodup

/-- What one database transaction writes. -/
inductive Transaction (H : Type) where
  | saveSidecar (sidecar : BundleSidecar)
  | savePendingBundle (context : PendingBundleContext H)
  | deletePendingBundle (seq : ℕ)
  | saveReceipt (receipt : Receipt H) (bundleHash : H)
  | saveConfirmedUnit (unit : ConfirmedBundleUnit H)
  | replaceValueRecords (records : List (LocalValueRecord H))
  | saveAcceptedTransferPackage (packageHash : H)
  | saveCanonicalHeader (header : HeaderLite H)

/-- `_bundle_ref_key_from_fields`, for a receipt and the hash of its bundle. -/
def receiptRef {H : Type} (receipt : Receipt H) (bundleHash : H) : BundleRef H where
  height := receipt.headerLite.height
  blockHash := receipt.headerLite.blockHash
  bundleHash := bundleHash
  seq := receipt.seq
  seq_pos := receipt.seq_pos

namespace LocalWalletDB

variable {H : Type}

/-- `WalletAccountV2(...)`: a wallet on an empty database. -/
def new (address : Address) (genesisBlockHash : H) : LocalWalletDB H where
  address := address
  records := []
  checkpoints := []
  canonicalHeaders := ∅
  acceptedTransferPackages := []
  genesisBlockHash := genesisBlockHash
  bundleSidecars := ∅
  receipts := ∅
  confirmedUnits := ∅
  pendingBundles := ∅
  recordIds_nodup := List.nodup_nil

/-- `get_pending_bundle`. -/
def getPendingBundle (db : LocalWalletDB H) (seq : ℕ) : Option (PendingBundleContext H) :=
  db.pendingBundles.get? seq

/-- `get_confirmed_unit`: the first row with the sender and the sequence number. -/
def getConfirmedUnit (db : LocalWalletDB H) (seq : ℕ) : Option (ConfirmedBundleUnit H) :=
  db.confirmedUnits.values.find? fun unit =>
    unit.bundleSidecar.senderAddr = db.address && unit.receipt.seq = seq

/-- `next_sequence`: one past the largest sequence number of a receipt or a pending bundle. -/
def nextSequence (db : LocalWalletDB H) : ℕ :=
  (db.receipts.keys ++ db.pendingBundles.keys).foldr max 0 + 1

/-- Replace the records, which are read back in the order of their values. -/
def withRecords (db : LocalWalletDB H) (records : List (LocalValueRecord H))
    (nodup : (records.map LocalValueRecord.recordId).Nodup) : LocalWalletDB H :=
  { db with
    records := records.insertionSort WalletAccountV2.recordLe
    recordIds_nodup :=
      ((List.perm_insertionSort _ records).map LocalValueRecord.recordId).nodup_iff.mpr nodup }

variable [Crypto H] [DecidableEq H]

/-- Commit one transaction. -/
def commit (db : LocalWalletDB H) : Transaction H → Except String (LocalWalletDB H)
  | .saveSidecar sidecar =>
      .ok { db with bundleSidecars := db.bundleSidecars.set (computeBundleHash sidecar) sidecar }
  | .savePendingBundle context => do
      require (∀ entry ∈ db.pendingBundles.entries, entry.2.bundleHash = context.bundleHash →
        entry.1 = context.seq) "UNIQUE constraint failed: pending_bundles.bundle_hash"
      pure { db with pendingBundles := db.pendingBundles.set context.seq context }
  | .deletePendingBundle seq => .ok { db with pendingBundles := db.pendingBundles.erase seq }
  | .saveReceipt receipt bundleHash => do
      let ref := receiptRef receipt bundleHash
      require (∀ entry ∈ db.receipts.entries, entry.2.1 = ref → entry.1 = receipt.seq)
        "UNIQUE constraint failed: receipts.bundle_ref_key"
      pure { db with receipts := db.receipts.set receipt.seq (ref, receipt) }
  | .saveConfirmedUnit unit =>
      .ok { db with confirmedUnits := db.confirmedUnits.set (confirmedRef unit) unit }
  | .replaceValueRecords records =>
      if nodup : (records.map LocalValueRecord.recordId).Nodup then
        .ok (db.withRecords records nodup)
      else .error "UNIQUE constraint failed: value_records.record_id"
  | .saveAcceptedTransferPackage packageHash =>
      .ok { db with
        acceptedTransferPackages :=
          if packageHash ∈ db.acceptedTransferPackages then db.acceptedTransferPackages
          else packageHash :: db.acceptedTransferPackages }
  | .saveCanonicalHeader header =>
      .ok { db with canonicalHeaders := db.canonicalHeaders.set header.height header }

/-- Commit transactions in order; the ones before a failing one stay. -/
def commitAll (db : LocalWalletDB H) : List (Transaction H) → Except String Unit × LocalWalletDB H
  | [] => (.ok (), db)
  | transaction :: rest =>
      match db.commit transaction with
      | .error message => (.error message, db)
      | .ok next => next.commitAll rest

/-- The result of an operation and the transactions that it commits. -/
abbrev Planned (H α : Type) : Type := α × List (Transaction H)

/-- Run an operation, which may raise before its first transaction: its result or error, and the
database afterwards. -/
def execute {α : Type} (db : LocalWalletDB H) (plan : Except String (Planned H α)) :
    Except String α × LocalWalletDB H :=
  match plan with
  | .error message => (.error message, db)
  | .ok (result, transactions) =>
      match db.commitAll transactions with
      | (.error message, after) => (.error message, after)
      | (.ok (), after) => (.ok result, after)

end LocalWalletDB

end EZChain
