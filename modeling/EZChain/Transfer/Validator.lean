import EZChain.Library.Checks
import EZChain.Chain.Hashing

/-!
# Transfer validator

A recipient checks a transfer against the sender's confirmed bundles, newest first, and then
against the anchor of the history: a genesis allocation, a trusted checkpoint, or the transfer by
which the sender acquired the value, which is checked in the same way.
-/

namespace EZChain

open Checks

/-- `ValidationContext`. -/
structure ValidationContext (H : Type) where
  /-- The allocated ranges of each account. -/
  genesisAllocations : OrderedDict Address (List ValueRange)
  /-- The checkpoints that end a history. -/
  trustedCheckpoints : List (Checkpoint H)

/-- A failed validation returns an error text; a constructor that it calls may also raise. -/
inductive Rejection where
  | returned (error : String)
  | raised (message : String)

/-- `ValidationResult`. -/
structure ValidationResult (H : Type) where
  /-- The transfer is accepted. -/
  ok : Bool
  /-- Why it is not. -/
  error : Option String
  /-- The history in the recipient's name. -/
  acceptedWitness : Option (WitnessV2 H)

namespace ValidationContext

variable {H : Type} [DecidableEq H]

/-- `is_trusted_checkpoint`. -/
def isTrustedCheckpoint (context : ValidationContext H) (checkpoint : Checkpoint H)
    (value : ValueRange) (ownerAddr : Address) : Bool :=
  context.trustedCheckpoints.any fun item => item = checkpoint && item.matches value ownerAddr

omit [DecidableEq H] in
/-- `matches_genesis_anchor`; an anchor with a negative end raises. -/
def matchesGenesisAnchor (context : ValidationContext H) (anchor : GenesisAnchor H)
    (value : ValueRange) (ownerAddr : Address) : Except String Bool :=
  if anchor.firstOwnerAddr ≠ ownerAddr then .ok false
  else do
    let expectedRanges := (context.genesisAllocations.get? ownerAddr).getD []
    let anchorRange ← ValueRange.ofInts anchor.valueBegin anchor.valueEnd
    if anchorRange.containsRange value = false then pure false
    else pure (expectedRanges.any fun allocation =>
      allocation.containsRange value && allocation = anchorRange)

end ValidationContext

namespace V2TransferValidator

variable {H : Type} [Crypto H] [DecidableEq H]

/-- `_tx_contains_target_value`. -/
def txContainsTargetValue (targetTx : OffChainTx) (targetValue : ValueRange) : Bool :=
  targetTx.valueList.any fun txValue => txValue.containsRange targetValue

/-- The checks of one unit's receipt: claim set, single proof, account leaf in the state root. -/
def checkReceipt (unit : ConfirmedBundleUnit H) : Except Rejection Unit := do
  require (unit.receipt.claimSetHash = none ∨ unit.receipt.claimSetHash =
    some (claimRangeSetHash (claimRangeSetFromSidecar unit.bundleSidecar)))
    (.returned "claim_set_hash does not match bundle sidecar")
  let proof ← demand unit.receipt.accountStateProof
    (.returned "current sender receipt missing single proof")
  require (verifyProof unit.receipt.headerLite.stateRoot
    (computeAddrKey H unit.bundleSidecar.senderAddr).bytes
    (hashAccountLeaf (reconstructedLeaf unit)) proof 256 = true)
    (.returned "account state proof does not verify")

/-- The reference to the next older unit. -/
def checkPrevRef (unit : ConfirmedBundleUnit H) :
    List (ConfirmedBundleUnit H) → Except Rejection Unit
  | [] => pure ()
  | next :: _ =>
      require (unit.receipt.prevRef = some (confirmedRef next))
        (.returned "prev_ref chain is discontinuous")

/-- In the newest bundle only the target transfer may touch the value. -/
def LatestClean (targetTx : OffChainTx) (targetValue : ValueRange) (sidecar : BundleSidecar) :
    Prop :=
  ∀ tx ∈ sidecar.txList, ∀ txValue ∈ tx.valueList, txValue.intersects targetValue = true →
    tx = targetTx ∧ txValue.containsRange targetValue = true

instance (targetTx : OffChainTx) (targetValue : ValueRange) (sidecar : BundleSidecar) :
    Decidable (LatestClean targetTx targetValue sidecar) :=
  inferInstanceAs (Decidable (∀ tx ∈ sidecar.txList, ∀ txValue ∈ tx.valueList, _))

/-- The loop of `_validate_current_sender_chain` over the older units. -/
def checkOlderUnits (targetValue : ValueRange) :
    List (ConfirmedBundleUnit H) → Except Rejection Unit
  | [] => pure ()
  | unit :: older => do
      checkReceipt unit
      checkPrevRef unit older
      require (claimRangeSetIntersects (claimRangeSetFromSidecar unit.bundleSidecar) targetValue =
        false) (.returned "value conflict detected inside current sender history")
      checkOlderUnits targetValue older

/-- `_validate_current_sender_chain`. -/
def validateCurrentSenderChain (targetValue : ValueRange) (targetTx : OffChainTx) :
    List (ConfirmedBundleUnit H) → Except Rejection Unit
  | [] => pure ()
  | latest :: older => do
      checkReceipt latest
      checkPrevRef latest older
      require (LatestClean targetTx targetValue latest.bundleSidecar)
        (.returned "value conflict detected inside current sender history")
      checkOlderUnits targetValue older

/-- The part of `_validate_transfer` before the anchor. -/
def checkSegment (targetTx : OffChainTx) (targetValue : ValueRange) (owner : Address)
    (chain : List (ConfirmedBundleUnit H)) (expectedRecipient : Address) :
    Except Rejection Unit := do
  require (owner = targetTx.senderAddr)
    (.returned "witness owner does not match target tx sender")
  require (targetTx.recipientAddr = expectedRecipient) (.returned "target recipient mismatch")
  require (txContainsTargetValue targetTx targetValue = true)
    (.returned "target value is not covered by target tx")
  let latestUnit ← demand chain.head? (.returned "current sender witness segment cannot be empty")
  let latestMatches := latestUnit.bundleSidecar.txList.filter fun tx => tx = targetTx
  require (latestMatches.length = 1)
    (.returned "target tx must exist exactly once in latest bundle")
  validateCurrentSenderChain targetValue targetTx chain

/-- `_validate_transfer`, with `_validate_anchor` as its last step. -/
def validateTransfer (context : ValidationContext H) (targetTx : OffChainTx)
    (targetValue : ValueRange) (expectedRecipient : Address) :
    WitnessV2 H → Except Rejection Unit
  | .genesis _ owner chain anchor => do
      checkSegment targetTx targetValue owner chain expectedRecipient
      let isMatch ← (context.matchesGenesisAnchor anchor targetValue owner).mapError .raised
      require (isMatch = true) (.returned "genesis anchor mismatch")
  | .checkpoint _ owner chain checkpoint => do
      checkSegment targetTx targetValue owner chain expectedRecipient
      require (context.isTrustedCheckpoint checkpoint targetValue owner = true)
        (.returned "checkpoint anchor is not trusted")
  | .prior _ owner chain acquireTx priorWitness => do
      checkSegment targetTx targetValue owner chain expectedRecipient
      validateTransfer context acquireTx targetValue owner priorWitness
      let acquireUnit ← demand priorWitness.confirmedBundleChain.head?
        (.raised "tuple index out of range")
      let acquireHeight := acquireUnit.receipt.headerLite.height
      match chain.getLast? with
      | none => pure ()
      | some earliest =>
          require (acquireHeight < earliest.receipt.headerLite.height)
            (.returned "current sender history starts before acquisition boundary")

/-- `validate_transfer_package`. -/
def validateTransferPackage (context : ValidationContext H) (package : TransferPackage H)
    (recipientAddr : Option Address) : Except String (ValidationResult H) :=
  let recipient := recipientAddr.getD package.targetTx.recipientAddr
  match validateTransfer context package.targetTx package.targetValue recipient
      package.witnessV2 with
  | .error (.returned error) => .ok ⟨false, some error, none⟩
  | .error (.raised message) => .error message
  | .ok () =>
      .ok ⟨true, none, some (.prior package.targetValue recipient [] package.targetTx
        package.witnessV2)⟩

end V2TransferValidator

end EZChain
