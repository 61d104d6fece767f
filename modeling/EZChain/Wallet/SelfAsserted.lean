import EZChain.Wallet.AccountHost

/-!
# Self-asserted genesis allocations

A delivered package is accepted exactly when it is new and its history is consistent, where the
genesis anchor at the end only has to cover the value for its own owner.  No table of allocations
enters, so an anchor outside such a table is refused only when the package fails another check.
-/

namespace EZChain

open Checks

/-- The genesis anchor at the end of a history. -/
def WitnessV2.innermostGenesis {H : Type} : WitnessV2 H → Option (GenesisAnchor H)
  | genesis _ _ _ anchor => some anchor
  | checkpoint _ _ _ _ => none
  | prior _ _ _ _ priorWitness => priorWitness.innermostGenesis

/-- The anchor names an owner and a range of the table. -/
def GenesisAnchor.Registered {H : Type} (anchor : GenesisAnchor H)
    (table : Set (Address × ValueRange)) : Prop :=
  ∃ range, ValueRange.ofInts anchor.valueBegin anchor.valueEnd = .ok range ∧
    (anchor.firstOwnerAddr, range) ∈ table

namespace V2AccountHost

open V2TransferValidator

variable {H : Type} [Crypto H] [DecidableEq H]

/-- The host answers a delivered package with a record id. -/
def Accepts (host : V2AccountHost H) (package : TransferPackage H) (recordId : String) : Prop :=
  ∃ stored next, host.onTransferPackage package recordId = (.ok stored, next)

/-- A history whose segments are accepted and whose end covers the value for its owner. -/
def ConsistentHistory (wallet : WalletAccountV2 H) (targetTx : OffChainTx)
    (targetValue : ValueRange) (recipient : Address) : WitnessV2 H → Prop
  | .genesis _ owner chain anchor =>
      checkSegment targetTx targetValue owner chain recipient = .ok () ∧
        anchor.firstOwnerAddr = owner ∧
        ∃ range, ValueRange.ofInts anchor.valueBegin anchor.valueEnd = .ok range ∧
          range.containsRange targetValue = true
  | .checkpoint _ owner chain checkpoint =>
      checkSegment targetTx targetValue owner chain recipient = .ok () ∧
        wallet.hasLocalCheckpoint checkpoint = true ∧ checkpoint.matches targetValue owner = true
  | .prior _ owner chain acquireTx priorWitness =>
      checkSegment targetTx targetValue owner chain recipient = .ok () ∧
        ConsistentHistory wallet acquireTx targetValue owner priorWitness ∧
        ∃ acquireUnit, priorWitness.confirmedBundleChain.head? = some acquireUnit ∧
          ∀ earliest, chain.getLast? = some earliest →
            acquireUnit.receipt.headerLite.height < earliest.receipt.headerLite.height

/-- Everything that the host checks about a delivered package. -/
structure Deliverable (host : V2AccountHost H) (package : TransferPackage H) (recordId : String) :
    Prop where
  new : transferPackageHash package ∉ host.wallet.acceptedTransferPackages
  freshId : (host.wallet.records.map LocalValueRecord.recordId ++ [recordId]).Nodup
  history : ConsistentHistory host.wallet package.targetTx package.targetValue
    host.wallet.address package.witnessV2

theorem exists_newest {context : ValidationContext H} {targetTx : OffChainTx}
    {targetValue : ValueRange} {recipient : Address} {witness : WitnessV2 H}
    (accepted : validateTransfer context targetTx targetValue recipient witness = .ok ()) :
    ∃ newest, witness.confirmedBundleChain.head? = some newest := by
  have checked : ∃ owner, checkSegment targetTx targetValue owner witness.confirmedBundleChain
      recipient = .ok () := by
    cases witness with
    | genesis => exact ⟨_, ((validateTransfer_genesis_eq_ok _ _ _ _ _ _ _ _ _).mp accepted).1⟩
    | checkpoint =>
        exact ⟨_, ((validateTransfer_checkpoint_eq_ok _ _ _ _ _ _ _ _ _).mp accepted).1⟩
    | prior => exact ⟨_, ((validateTransfer_prior_eq_ok _ _ _ _ _ _ _ _ _ _).mp accepted).1⟩
  obtain ⟨owner, checked⟩ := checked
  obtain ⟨latest, older, chain_eq, _⟩ := (checkSegment_eq_ok _ _ _ _ _ _).mp checked
  exact ⟨latest, by rw [chain_eq]; rfl⟩

/-! ## The table that a package brings along -/

section OwnTable

variable (wallet : WalletAccountV2 H)

/-- The context that the host builds from extracted allocations. -/
def ownContext (wallet : WalletAccountV2 H) (witness : WitnessV2 H)
    (allocations : List (Address × ValueRange)) : ValidationContext H where
  genesisAllocations := allocations.foldl
    (fun table item => registerGenesisAllocation table item.1 item.2) ∅
  trustedCheckpoints := wallet.trustedCheckpointsForWitness witness

/-- A genesis anchor matches the table that it was extracted into when it covers the value. -/
theorem matchesGenesisAnchor_ownContext (value targetValue : ValueRange) (owner : Address)
    (chain : List (ConfirmedBundleUnit H)) (anchor : GenesisAnchor H) :
    (∃ allocations, extractGenesisAllocations (.genesis value owner chain anchor) =
        .ok allocations ∧
      (ownContext wallet (.genesis value owner chain anchor) allocations).matchesGenesisAnchor
        anchor targetValue owner = .ok true) ↔
      anchor.firstOwnerAddr = owner ∧
        ∃ range, ValueRange.ofInts anchor.valueBegin anchor.valueEnd = .ok range ∧
          range.containsRange targetValue = true := by
  simp only [extractGenesisAllocations, bind_eq_ok, pure_eq_ok, matchesGenesisAnchor_eq_true]
  constructor
  · rintro ⟨_, _, owner_eq, range, range_eq, covers, _⟩
    exact ⟨owner_eq, range, range_eq, covers⟩
  · rintro ⟨rfl, range, range_eq, covers⟩
    have registered : (ownContext wallet (.genesis value anchor.firstOwnerAddr chain anchor)
        [(anchor.firstOwnerAddr, range)]).genesisAllocations.get? anchor.firstOwnerAddr =
          some [range] :=
      OrderedDict.get?_set_self _ _ _
    refine ⟨_, ⟨range, range_eq, rfl⟩, rfl, range, range_eq, covers, ?_⟩
    rw [registered]
    exact List.mem_singleton_self range

theorem isTrustedCheckpoint_ownContext (value targetValue : ValueRange) (owner : Address)
    (chain : List (ConfirmedBundleUnit H)) (checkpoint : Checkpoint H)
    (allocations : List (Address × ValueRange)) :
    (ownContext wallet (.checkpoint value owner chain checkpoint) allocations).isTrustedCheckpoint
        checkpoint targetValue owner = true ↔
      wallet.hasLocalCheckpoint checkpoint = true ∧
        checkpoint.matches targetValue owner = true := by
  simp only [ValidationContext.isTrustedCheckpoint, ownContext,
    WalletAccountV2.trustedCheckpointsForWitness]
  split
  · next held => simp [held]
  · next unknown => simp [unknown]

/-- Validation against its own table asks of a history that it is consistent. -/
theorem validateTransfer_ownContext_iff (targetTx : OffChainTx) (targetValue : ValueRange)
    (recipient : Address) (witness : WitnessV2 H) :
    (∃ allocations, extractGenesisAllocations witness = .ok allocations ∧
      validateTransfer (ownContext wallet witness allocations) targetTx targetValue recipient
        witness = .ok ()) ↔
      ConsistentHistory wallet targetTx targetValue recipient witness := by
  induction witness generalizing targetTx recipient with
  | genesis value owner chain anchor =>
      simp only [validateTransfer_genesis_eq_ok, ConsistentHistory,
        ← matchesGenesisAnchor_ownContext wallet value targetValue owner chain anchor]
      tauto
  | checkpoint value owner chain checkpoint =>
      simp only [validateTransfer_checkpoint_eq_ok, isTrustedCheckpoint_ownContext,
        ConsistentHistory, extractGenesisAllocations, pure_eq_ok, exists_eq_left']
  | prior value owner chain acquireTx priorWitness induction =>
      simp only [validateTransfer_prior_eq_ok, ConsistentHistory, ← induction acquireTx owner]
      constructor
      · rintro ⟨allocations, extracted, checked, validated, boundary⟩
        exact ⟨checked, ⟨allocations, extracted, validated⟩, boundary⟩
      · rintro ⟨checked, ⟨allocations, extracted, validated⟩, boundary⟩
        exact ⟨allocations, extracted, checked, validated, boundary⟩

end OwnTable

/-! ## Acceptance -/

/-- The host accepts exactly the deliverable packages. -/
theorem accepts_iff_deliverable (host : V2AccountHost H) (package : TransferPackage H)
    (recordId : String) : host.Accepts package recordId ↔ host.Deliverable package recordId := by
  have received_iff : host.Accepts package recordId ↔
      ∃ result, host.receivePackage package recordId = .ok result := by
    rw [Accepts, onTransferPackage]
    split
    · next raised => simp [raised]
    · next received => simp [received]
  rw [received_iff]
  simp only [receivePackage, buildValidatorForPackage, bind_eq_ok, pure_eq_ok, Prod.exists,
    WalletAccountV2.receiveTransfer_eq_ok_iff]
  constructor
  · rintro ⟨_, _, _, ⟨allocations, extracted, rfl⟩, new, validated, freshId, _⟩
    exact ⟨new, freshId, (validateTransfer_ownContext_iff _ _ _ _ _).mp
      ⟨allocations, extracted, validated⟩⟩
  · rintro ⟨new, freshId, history⟩
    obtain ⟨allocations, extracted, validated⟩ :=
      (validateTransfer_ownContext_iff _ _ _ _ _).mpr history
    obtain ⟨newest, newest_eq⟩ := exists_newest validated
    exact ⟨_, _, _, ⟨allocations, extracted, rfl⟩, new, validated, freshId, newest, newest_eq,
      rfl, rfl⟩

section Examples

open SymbolicDigest ChainStateV2 WalletAccountV2

end Examples

end V2AccountHost

end EZChain
