import EZChain.Wallet.Canonical

/-!
# Account host

An account host validates a delivered package against the genesis allocations that it extracts
from the package itself.  Acceptance therefore consults no allocation known to the host: it asks
whether the history is consistent and ends in an anchor that covers the value.
-/

namespace EZChain

open Checks

/-- `TransferMailboxEvent`. -/
structure TransferMailboxEvent (H : Type) where
  packageHash : H
  senderAddr : Address
  recipientAddr : Address
  txHash : H
  valueBegin : ℕ
  valueEnd : ℕ

/-- `V2AccountHost`, as far as it handles delivered packages. -/
structure V2AccountHost (H : Type) where
  /-- The host's wallet. -/
  wallet : WalletAccountV2 H
  /-- The transfers that were received, the latest last. -/
  receivedTransfers : List (TransferMailboxEvent H)

/-- `V2Runtime.register_genesis_allocation`: the ranges of an owner are sorted and distinct. -/
def registerGenesisAllocation (allocations : OrderedDict Address (List ValueRange))
    (ownerAddr : Address) (value : ValueRange) : OrderedDict Address (List ValueRange) :=
  let existing := (allocations.get? ownerAddr).getD []
  if value ∈ existing then allocations
  else allocations.set ownerAddr ((existing ++ [value]).insertionSort rangeLe)

/-- `_extract_genesis_allocations`: the anchor at the end of a history. -/
def extractGenesisAllocations {H : Type} : WitnessV2 H → Except String (List (Address × ValueRange))
  | .genesis _ _ _ anchor => do
      let value ← ValueRange.ofInts anchor.valueBegin anchor.valueEnd
      pure [(anchor.firstOwnerAddr, value)]
  | .checkpoint _ _ _ _ => pure []
  | .prior _ _ _ _ priorWitness => extractGenesisAllocations priorWitness

namespace V2AccountHost

variable {H : Type} [Crypto H] [DecidableEq H]

/-- `_build_validator_for_package`: the context of the validator. -/
def buildValidatorForPackage (host : V2AccountHost H) (package : TransferPackage H) :
    Except String (ValidationContext H) := do
  let allocations ← extractGenesisAllocations package.witnessV2
  pure
    { genesisAllocations := allocations.foldl
        (fun table item => registerGenesisAllocation table item.1 item.2) ∅
      trustedCheckpoints := host.wallet.trustedCheckpointsForWitness package.witnessV2 }

/-- `_tx_hash_hex`. -/
def txHash (tx : OffChainTx) : H := Crypto.keccak256 [.encoded tx.canonicalize]

/-- The calls of `_on_transfer_package` that may raise. -/
def receivePackage (host : V2AccountHost H) (package : TransferPackage H) (recordId : String) :
    Except String (LocalValueRecord H × WalletAccountV2 H) := do
  let context ← host.buildValidatorForPackage package
  host.wallet.receiveTransfer package context recordId

/-- `_on_transfer_package`: the record id or the error of the response, and the host afterwards. -/
def onTransferPackage (host : V2AccountHost H) (package : TransferPackage H) (recordId : String) :
    Except String String × V2AccountHost H :=
  match host.receivePackage package recordId with
  | .error error => (.error error, host)
  | .ok (record, wallet) =>
      (.ok record.recordId,
        { wallet := wallet
          receivedTransfers := host.receivedTransfers ++ [{
            packageHash := transferPackageHash package
            senderAddr := package.targetTx.senderAddr
            recipientAddr := package.targetTx.recipientAddr
            txHash := txHash package.targetTx
            valueBegin := package.targetValue.valueBegin
            valueEnd := package.targetValue.valueEnd }] })

end V2AccountHost

end EZChain
