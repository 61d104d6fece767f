import EZChain.Transfer.DoubleSpend
import EZChain.Wallet.Receive

/-!
# Canonical headers of received values

Receiving never compares the headers of a package with the headers that the wallet knows.  The
stored history consists of the package's own units and of the units of a local record that
replaces a checkpoint, so it is canonical exactly when these are.
-/

namespace EZChain

open Checks

namespace WalletAccountV2

open V2TransferValidator

variable {H : Type} [Crypto H] [DecidableEq H]

/-! ## Successful calls -/

section Calls

variable {wallet next : WalletAccountV2 H} {package : TransferPackage H}
  {context : ValidationContext H} {recordId : String} {record : LocalValueRecord H}

/-- The record that receiving a package stores. -/
def receivedRecord (wallet : WalletAccountV2 H) (package : TransferPackage H) (recordId : String)
    (newest : ConfirmedBundleUnit H) : LocalValueRecord H where
  recordId := recordId
  value := package.targetValue
  witnessV2 := wallet.rehydrateLocalCheckpointAnchors
    (.prior package.targetValue wallet.address [] package.targetTx package.witnessV2)
  localStatus := .verifiedSpendable
  acquisitionHeight := newest.receipt.headerLite.height

/-- What `receive_transfer` has checked before its first write. -/
structure PackageChecked (wallet : WalletAccountV2 H) (package : TransferPackage H)
    (context : ValidationContext H) (newest : ConfirmedBundleUnit H) : Prop where
  new : transferPackageHash package ∉ wallet.acceptedTransferPackages
  validated : validateTransfer context package.targetTx package.targetValue wallet.address
    package.witnessV2 = .ok ()
  newest_eq : package.witnessV2.confirmedBundleChain.head? = some newest

theorem checkedRecord_eq_ok :
    wallet.checkedRecord package context recordId = .ok record ↔
      ∃ newest, wallet.PackageChecked package context newest ∧
        record = wallet.receivedRecord package recordId newest := by
  simp only [checkedRecord, bind_eq_ok, require_eq_ok, exists_const, demand_eq_ok, pure_eq_ok]
  constructor
  · rintro ⟨new, result, result_eq, witness, witness_eq, newest, newest_eq, rfl⟩
    obtain ⟨validated, rfl⟩ := (exists_acceptedWitness_iff context package (some wallet.address)
      witness).mp ⟨result, result_eq, witness_eq⟩
    exact ⟨newest, ⟨new, validated, newest_eq⟩, rfl⟩
  · rintro ⟨newest, ⟨new, validated, newest_eq⟩, rfl⟩
    obtain ⟨result, result_eq, witness_eq⟩ := (exists_acceptedWitness_iff context package
      (some wallet.address) _).mpr ⟨validated, rfl⟩
    exact ⟨new, result, result_eq, _, witness_eq, newest, newest_eq, rfl⟩

/-- The wallet after receiving a package. -/
def afterReceiving (wallet : WalletAccountV2 H) (package : TransferPackage H)
    (record : LocalValueRecord H) : WalletAccountV2 H :=
  { wallet with
    records := (wallet.records ++ [record]).insertionSort recordLe
    acceptedTransferPackages := transferPackageHash package :: wallet.acceptedTransferPackages }

omit [Crypto H] [DecidableEq H] in
theorem find?_recordId {records : List (LocalValueRecord H)}
    (ids_nodup : (records.map LocalValueRecord.recordId).Nodup) (member : record ∈ records) :
    (records.insertionSort recordLe).find? (fun item => item.recordId = record.recordId) =
      some record := by
  have sorted_mem : record ∈ records.insertionSort recordLe :=
    (List.perm_insertionSort recordLe records).mem_iff.mpr member
  obtain ⟨found, found_eq⟩ : ∃ found, (records.insertionSort recordLe).find?
      (fun item => item.recordId = record.recordId) = some found := by
    apply Option.isSome_iff_exists.mp
    exact List.find?_isSome.mpr ⟨record, sorted_mem, decide_eq_true rfl⟩
  have found_mem : found ∈ records :=
    (List.perm_insertionSort recordLe records).mem_iff.mp (List.mem_of_find?_eq_some found_eq)
  have id_eq : found.recordId = record.recordId := by
    simpa using List.find?_some found_eq
  rw [found_eq, List.inj_on_of_nodup_map ids_nodup found_mem member id_eq]

/-- A call succeeds on a new package that the validator accepts, under a fresh record id. -/
theorem receiveTransfer_eq_ok_iff :
    wallet.receiveTransfer package context recordId = .ok (record, next) ↔
      transferPackageHash package ∉ wallet.acceptedTransferPackages ∧
        validateTransfer context package.targetTx package.targetValue wallet.address
          package.witnessV2 = .ok () ∧
        (wallet.records.map LocalValueRecord.recordId ++ [recordId]).Nodup ∧
        ∃ newest, package.witnessV2.confirmedBundleChain.head? = some newest ∧
          record = wallet.receivedRecord package recordId newest ∧
          next = wallet.afterReceiving package record := by
  have stored_found : ∀ newest : ConfirmedBundleUnit H,
      ((wallet.records ++ [wallet.receivedRecord package recordId newest]).map
        LocalValueRecord.recordId).Nodup →
      ((wallet.records ++ [wallet.receivedRecord package recordId newest]).insertionSort
        recordLe).find? (fun item => item.recordId = recordId) =
          some (wallet.receivedRecord package recordId newest) :=
    fun newest ids_nodup => find?_recordId ids_nodup (List.mem_concat_self)
  simp only [receiveTransfer, persistRecords, bind_eq_ok, require_eq_ok, exists_const,
    demand_eq_ok, pure_eq_ok, Prod.mk.injEq]
  constructor
  · rintro ⟨received, checked_eq, persisted, ⟨ids_nodup, rfl⟩, stored, found, rfl, rfl⟩
    obtain ⟨newest, ⟨fresh, validated, newest_eq⟩, rfl⟩ := checkedRecord_eq_ok.mp checked_eq
    have stored_eq := Option.some.inj (found.symm.trans (stored_found newest ids_nodup))
    subst stored_eq
    rw [List.map_append] at ids_nodup
    exact ⟨fresh, validated, ids_nodup, newest, newest_eq, rfl, rfl⟩
  · rintro ⟨fresh, validated, ids_nodup, newest, newest_eq, rfl, rfl⟩
    have checked_eq : wallet.checkedRecord package context recordId =
        .ok (wallet.receivedRecord package recordId newest) :=
      checkedRecord_eq_ok.mpr ⟨newest, ⟨fresh, validated, newest_eq⟩, rfl⟩
    have ids_nodup' : ((wallet.records ++ [wallet.receivedRecord package recordId newest]).map
        LocalValueRecord.recordId).Nodup := by
      rw [List.map_append]
      exact ids_nodup
    exact ⟨_, checked_eq, _, ⟨ids_nodup', rfl⟩, _, stored_found newest ids_nodup', rfl, rfl⟩

end Calls

omit [Crypto H] in
theorem knowsCanonicalHeader_observe_self (wallet : WalletAccountV2 H) (header : HeaderLite H) :
    (wallet.observeCanonicalHeader header).knowsCanonicalHeader header = true := by
  rw [knowsCanonicalHeader, observeCanonicalHeader, OrderedDict.get?_set_self]
  exact decide_eq_true rfl

/-! ## Stored units -/

section Units

/-- The units of a history that are stored as they were presented. -/
def presentedUnits (wallet : WalletAccountV2 H) : WitnessV2 H → List (ConfirmedBundleUnit H)
  | .genesis _ _ chain _ => chain
  | .checkpoint _ _ chain checkpoint => if wallet.hasLocalCheckpoint checkpoint then [] else chain
  | .prior _ _ chain _ priorWitness => chain ++ presentedUnits wallet priorWitness

/-- The units of the local record that replaces a checkpoint. -/
def localUnits (wallet : WalletAccountV2 H) : WitnessV2 H → List (ConfirmedBundleUnit H)
  | .genesis _ _ _ _ => []
  | .checkpoint _ _ _ checkpoint =>
      ((wallet.localWitnessForCheckpoint checkpoint).map WitnessV2.allUnits).getD []
  | .prior _ _ _ _ priorWitness => localUnits wallet priorWitness

theorem allUnits_rehydrate (wallet : WalletAccountV2 H) (witness : WitnessV2 H) :
    (wallet.rehydrateLocalCheckpointAnchors witness).allUnits =
      wallet.presentedUnits witness ++ wallet.localUnits witness := by
  induction witness with
  | genesis value owner chain anchor => exact (List.append_nil chain).symm
  | checkpoint value owner chain checkpoint =>
      rw [rehydrateLocalCheckpointAnchors, presentedUnits, localUnits, hasLocalCheckpoint]
      cases wallet.localWitnessForCheckpoint checkpoint with
      | none => exact (List.append_nil chain).symm
      | some found => rfl
  | prior value owner chain acquireTx priorWitness induction =>
      rw [rehydrateLocalCheckpointAnchors, WitnessV2.allUnits, induction, presentedUnits,
        localUnits, List.append_assoc]

/-- A received history is stored with canonical headers exactly when the presented units and the
units of the local record that replaces a checkpoint have canonical headers. -/
theorem receiveTransfer_canonical_iff (wallet next : WalletAccountV2 H)
    (package : TransferPackage H) (context : ValidationContext H) (recordId : String)
    (record : LocalValueRecord H)
    (received : wallet.receiveTransfer package context recordId = .ok (record, next)) :
    record ∈ next.records ∧
      ((∀ unit ∈ record.witnessV2.allUnits,
          next.knowsCanonicalHeader unit.receipt.headerLite = true) ↔
        (∀ unit ∈ wallet.presentedUnits package.witnessV2,
            wallet.knowsCanonicalHeader unit.receipt.headerLite = true) ∧
          ∀ unit ∈ wallet.localUnits package.witnessV2,
            wallet.knowsCanonicalHeader unit.receipt.headerLite = true) := by
  obtain ⟨_, _, _, newest, _, rfl, rfl⟩ := receiveTransfer_eq_ok_iff.mp received
  constructor
  · exact (List.perm_insertionSort recordLe _).mem_iff.mpr List.mem_concat_self
  · have units_eq : (wallet.receivedRecord package recordId newest).witnessV2.allUnits =
        wallet.presentedUnits package.witnessV2 ++ wallet.localUnits package.witnessV2 :=
      wallet.allUnits_rehydrate _
    rw [units_eq, List.forall_mem_append]
    rfl

end Units

section Examples

open SymbolicDigest ChainStateV2

/-- Bob's wallet before he knows any header. -/
def bobWallet : WalletAccountV2 SymbolicDigest := ⟨bob, [], [], ∅, []⟩

theorem receiveTransfer_firstPackage {wallet : WalletAccountV2 SymbolicDigest}
    (address_eq : wallet.address = bob) (records_eq : wallet.records = [])
    (accepted_eq : wallet.acceptedTransferPackages = []) :
    ∃ record next, wallet.receiveTransfer firstPackage aliceContext "record" =
      .ok (record, next) := by
  have validated := (validateTransferPackage_ok_iff _ _ _).mp firstPackage_accepted
  refine ⟨_, _, receiveTransfer_eq_ok_iff.mpr ⟨?_, ?_, ?_, _, rfl, rfl, rfl⟩⟩
  · rw [accepted_eq]
    exact List.not_mem_nil
  · rw [address_eq]
    exact validated
  · rw [records_eq]
    exact List.nodup_singleton _

/-- A wallet that knows the header of the first block stores a canonical history. -/
theorem receiveTransfer_canonical_firstBlock :
    ∃ record next,
      (bobWallet.observeCanonicalBlock (genesis.peerBlock 1 firstEntry)).receiveTransfer
        firstPackage aliceContext "record" = .ok (record, next) ∧
      ∀ unit ∈ record.witnessV2.allUnits,
        next.knowsCanonicalHeader unit.receipt.headerLite = true := by
  obtain ⟨record, next, received⟩ : ∃ record next, (bobWallet.observeCanonicalBlock
      (genesis.peerBlock 1 firstEntry)).receiveTransfer firstPackage aliceContext "record" =
        .ok (record, next) := receiveTransfer_firstPackage rfl rfl rfl
  refine ⟨record, next, received,
    (receiveTransfer_canonical_iff _ _ _ _ _ _ received).2.mpr ⟨?_, by nofun⟩⟩
  intro unit member
  obtain rfl := List.mem_singleton.mp member
  exact knowsCanonicalHeader_observe_self bobWallet _

/-- A wallet that knows another block at height one stores a history with an unknown header. -/
theorem receiveTransfer_fork :
    ∃ record next,
      (bobWallet.observeCanonicalBlock (genesis.peerBlock 2 firstEntry)).receiveTransfer
        firstPackage aliceContext "record" = .ok (record, next) ∧ record ∈ next.records ∧
      ∃ unit ∈ record.witnessV2.allUnits,
        next.knowsCanonicalHeader unit.receipt.headerLite = false := by
  obtain ⟨record, next, received⟩ : ∃ record next, (bobWallet.observeCanonicalBlock
      (genesis.peerBlock 2 firstEntry)).receiveTransfer firstPackage aliceContext "record" =
        .ok (record, next) := receiveTransfer_firstPackage rfl rfl rfl
  obtain ⟨_, _, _, newest, _, rfl, rfl⟩ := receiveTransfer_eq_ok_iff.mp received
  refine ⟨_, _, received, (List.perm_insertionSort recordLe _).mem_iff.mpr List.mem_concat_self,
    peerUnit genesis 1 firstEntry, List.mem_cons_self, ?_⟩
  -- The known header of height one belongs to a block with another timestamp.
  apply Bool.eq_false_iff.mpr
  intro known
  have header_eq := Option.some.inj (of_decide_eq_true known)
  have hash_eq : genesis.peerBlockHash 2 firstEntry = genesis.peerBlockHash 1 firstEntry :=
    congrArg HeaderLite.blockHash header_eq
  have timestamp_eq := (deriveBlockHash_injective idealHash hash_eq).2.2.1
  cases timestamp_eq

end Examples

end WalletAccountV2

end EZChain
