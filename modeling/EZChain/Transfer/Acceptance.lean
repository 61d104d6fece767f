import EZChain.Transfer.Validator

/-!
# Accepted transfers

What the validator has checked when it accepts a transfer: the newest segment of the history, and
one fact for each kind of anchor.
-/

namespace EZChain

open Checks

namespace V2TransferValidator

variable {H : Type} [Crypto H] [DecidableEq H]

/-- The receipt's claim set and account leaf are in order. -/
structure ReceiptAccepted (unit : ConfirmedBundleUnit H) : Prop where
  claimSet : unit.receipt.claimSetHash = none ∨ unit.receipt.claimSetHash =
    some (claimRangeSetHash (claimRangeSetFromSidecar unit.bundleSidecar))
  stateProof : ∃ proof, unit.receipt.accountStateProof = some proof ∧
    verifyProof unit.receipt.headerLite.stateRoot
      (computeAddrKey H unit.bundleSidecar.senderAddr).bytes
      (hashAccountLeaf (reconstructedLeaf unit)) proof 256 = true

/-- Some transfer of the bundle moves an atom of the value. -/
def Touches (sidecar : BundleSidecar) (value : ValueRange) : Prop :=
  ∃ tx ∈ sidecar.txList, ∃ txValue ∈ tx.valueList, txValue.intersects value = true

/-- The newest segment of an accepted transfer. -/
structure SegmentAccepted (targetTx : OffChainTx) (targetValue : ValueRange) (owner : Address)
    (latest : ConfirmedBundleUnit H) (older : List (ConfirmedBundleUnit H))
    (recipient : Address) : Prop where
  owner_eq : owner = targetTx.senderAddr
  recipient_eq : targetTx.recipientAddr = recipient
  covered : ∃ txValue ∈ targetTx.valueList, txValue.containsRange targetValue = true
  once : (latest.bundleSidecar.txList.filter fun tx => tx = targetTx).length = 1
  receipts : ∀ unit ∈ latest :: older, ReceiptAccepted unit
  /-- Every unit refers to the next older one. -/
  linked : (latest :: older).IsChain fun unit next =>
    unit.receipt.prevRef = some (confirmedRef next)
  latestClean : LatestClean targetTx targetValue latest.bundleSidecar
  olderClean : ∀ unit ∈ older, ¬ Touches unit.bundleSidecar targetValue

theorem checkReceipt_eq_ok (unit : ConfirmedBundleUnit H) (done : Unit) :
    checkReceipt unit = .ok done ↔ ReceiptAccepted unit := by
  simp only [checkReceipt, bind_eq_ok, require_eq_ok, exists_const, demand_eq_ok]
  constructor
  · rintro ⟨claims, proof, proof_eq, verified⟩
    exact ⟨claims, proof, proof_eq, verified⟩
  · rintro ⟨claims, proof, proof_eq, verified⟩
    exact ⟨claims, proof, proof_eq, verified⟩

theorem isChain_cons_iff_checkPrevRef (unit : ConfirmedBundleUnit H)
    (older : List (ConfirmedBundleUnit H)) (done : Unit) :
    (unit :: older).IsChain (fun unit next => unit.receipt.prevRef = some (confirmedRef next)) ↔
      checkPrevRef unit older = .ok done ∧
        older.IsChain fun unit next => unit.receipt.prevRef = some (confirmedRef next) := by
  cases older with
  | nil => simp [checkPrevRef]
  | cons next older => simp [checkPrevRef]

omit [DecidableEq H] in
theorem touches_iff (sidecar : BundleSidecar) (value : ValueRange) :
    claimRangeSetIntersects (claimRangeSetFromSidecar sidecar) value = false ↔
      ¬ Touches sidecar value := by
  rw [Touches, ← claimRangeSetIntersects_iff, Bool.not_eq_true]

theorem checkOlderUnits_eq_ok (targetValue : ValueRange) (older : List (ConfirmedBundleUnit H))
    (done : Unit) :
    checkOlderUnits targetValue older = .ok done ↔
      (∀ unit ∈ older, ReceiptAccepted unit) ∧
        older.IsChain (fun unit next => unit.receipt.prevRef = some (confirmedRef next)) ∧
        ∀ unit ∈ older, ¬ Touches unit.bundleSidecar targetValue := by
  induction older with
  | nil => simp [checkOlderUnits]
  | cons unit older induction =>
      simp only [checkOlderUnits, bind_eq_ok, checkReceipt_eq_ok, require_eq_ok, touches_iff,
        exists_const, induction, List.forall_mem_cons, isChain_cons_iff_checkPrevRef unit older ()]
      tauto

theorem checkSegment_eq_ok (targetTx : OffChainTx) (targetValue : ValueRange) (owner : Address)
    (chain : List (ConfirmedBundleUnit H)) (recipient : Address) (done : Unit) :
    checkSegment targetTx targetValue owner chain recipient = .ok done ↔
      ∃ latest older, chain = latest :: older ∧
        SegmentAccepted targetTx targetValue owner latest older recipient := by
  simp only [checkSegment, bind_eq_ok, require_eq_ok, exists_const, demand_eq_ok,
    txContainsTargetValue, List.any_eq_true]
  constructor
  · rintro ⟨owner_eq, recipient_eq, covered, latest, head_eq, once, checked⟩
    obtain ⟨older, rfl⟩ := List.head?_eq_some_iff.mp head_eq
    simp only [validateCurrentSenderChain, bind_eq_ok, checkReceipt_eq_ok, require_eq_ok,
      checkOlderUnits_eq_ok, exists_const, exists_unit] at checked
    obtain ⟨receipt, linked, clean, older_receipts, older_linked, older_clean⟩ := checked
    exact ⟨latest, older, rfl,
      { owner_eq := owner_eq
        recipient_eq := recipient_eq
        covered := covered
        once := once
        receipts := List.forall_mem_cons.mpr ⟨receipt, older_receipts⟩
        linked := (isChain_cons_iff_checkPrevRef latest older ()).mpr ⟨linked, older_linked⟩
        latestClean := clean
        olderClean := older_clean }⟩
  · rintro ⟨latest, older, rfl, accepted⟩
    obtain ⟨receipt, older_receipts⟩ := List.forall_mem_cons.mp accepted.receipts
    obtain ⟨linked, older_linked⟩ := (isChain_cons_iff_checkPrevRef latest older ()).mp
      accepted.linked
    refine ⟨accepted.owner_eq, accepted.recipient_eq, accepted.covered, latest, rfl,
      accepted.once, ?_⟩
    simp only [validateCurrentSenderChain, bind_eq_ok, checkReceipt_eq_ok, require_eq_ok,
      checkOlderUnits_eq_ok, exists_const, exists_unit]
    exact ⟨receipt, linked, accepted.latestClean, older_receipts, older_linked,
      accepted.olderClean⟩

theorem SegmentAccepted.targetTx_mem {targetTx : OffChainTx} {targetValue : ValueRange}
    {owner recipient : Address} {latest : ConfirmedBundleUnit H}
    {older : List (ConfirmedBundleUnit H)}
    (accepted : SegmentAccepted targetTx targetValue owner latest older recipient) :
    targetTx ∈ latest.bundleSidecar.txList := by
  have nonempty : latest.bundleSidecar.txList.filter (fun tx => tx = targetTx) ≠ [] := by
    intro filter_nil
    have once := accepted.once
    rw [filter_nil] at once
    cases once
  obtain ⟨tx, tx_mem⟩ := List.exists_mem_of_ne_nil _ nonempty
  obtain ⟨member, tx_eq⟩ := List.mem_filter.mp tx_mem
  exact of_decide_eq_true tx_eq ▸ member

/-- The owner of an accepted segment sent the latest bundle. -/
theorem SegmentAccepted.latest_sender {targetTx : OffChainTx} {targetValue : ValueRange}
    {owner recipient : Address} {latest : ConfirmedBundleUnit H}
    {older : List (ConfirmedBundleUnit H)}
    (accepted : SegmentAccepted targetTx targetValue owner latest older recipient) :
    latest.bundleSidecar.senderAddr = owner := by
  rw [accepted.owner_eq]
  exact (latest.bundleSidecar.sender_eq targetTx accepted.targetTx_mem).symm

/-! ## Anchors -/

omit [Crypto H] [DecidableEq H] in
/-- A genesis anchor matches when its range is an allocation of the owner that covers the value. -/
theorem matchesGenesisAnchor_eq_true (context : ValidationContext H) (anchor : GenesisAnchor H)
    (value : ValueRange) (owner : Address) :
    context.matchesGenesisAnchor anchor value owner = .ok true ↔
      anchor.firstOwnerAddr = owner ∧
        ∃ range, ValueRange.ofInts anchor.valueBegin anchor.valueEnd = .ok range ∧
          range.containsRange value = true ∧
          range ∈ (context.genesisAllocations.get? owner).getD [] := by
  rw [ValidationContext.matchesGenesisAnchor]
  split
  · next owner_ne => simp [owner_ne]
  · next owner_eq =>
      simp only [bind_eq_ok, not_not.mp owner_eq, true_and]
      apply exists_congr
      intro range
      apply and_congr_right
      intro _
      split
      · next uncovered => simp [uncovered]
      · next covers =>
          have covers := eq_true_of_ne_false covers
          simp only [covers, pure_eq_ok, List.any_eq_true, Bool.and_eq_true, decide_eq_true_eq,
            true_and]
          constructor
          · rintro ⟨allocation, member, _, rfl⟩
            exact member
          · intro member
            exact ⟨range, member, covers, rfl⟩

section Anchors

variable (context : ValidationContext H) (targetTx : OffChainTx) (targetValue value : ValueRange)
  (owner recipient : Address) (chain : List (ConfirmedBundleUnit H)) (done : Unit)

theorem validateTransfer_genesis_eq_ok (anchor : GenesisAnchor H) :
    validateTransfer context targetTx targetValue recipient (.genesis value owner chain anchor) =
        .ok done ↔
      checkSegment targetTx targetValue owner chain recipient = .ok () ∧
        context.matchesGenesisAnchor anchor targetValue owner = .ok true := by
  simp only [validateTransfer, bind_eq_ok, require_eq_ok, mapError_eq_ok]
  constructor
  · rintro ⟨_, checked, isMatch, matched, rfl⟩
    exact ⟨checked, matched⟩
  · rintro ⟨checked, matched⟩
    exact ⟨(), checked, true, matched, rfl⟩

theorem validateTransfer_checkpoint_eq_ok (checkpoint : Checkpoint H) :
    validateTransfer context targetTx targetValue recipient
        (.checkpoint value owner chain checkpoint) = .ok done ↔
      checkSegment targetTx targetValue owner chain recipient = .ok () ∧
        context.isTrustedCheckpoint checkpoint targetValue owner = true := by
  simp only [validateTransfer, bind_eq_ok, require_eq_ok, exists_unit]

theorem validateTransfer_prior_eq_ok (acquireTx : OffChainTx) (priorWitness : WitnessV2 H) :
    validateTransfer context targetTx targetValue recipient
        (.prior value owner chain acquireTx priorWitness) = .ok done ↔
      checkSegment targetTx targetValue owner chain recipient = .ok () ∧
        validateTransfer context acquireTx targetValue owner priorWitness = .ok () ∧
        ∃ acquireUnit, priorWitness.confirmedBundleChain.head? = some acquireUnit ∧
          ∀ earliest, chain.getLast? = some earliest →
            acquireUnit.receipt.headerLite.height < earliest.receipt.headerLite.height := by
  simp only [validateTransfer, bind_eq_ok, exists_unit, demand_eq_ok]
  cases chain.getLast? with
  | none => simp
  | some earliest => simp

end Anchors

/-- The result is ok exactly when the transfer is accepted. -/
theorem validateTransferPackage_ok_iff (context : ValidationContext H)
    (package : TransferPackage H) (recipientAddr : Option Address) :
    (∃ result, validateTransferPackage context package recipientAddr = .ok result ∧
        result.ok = true) ↔
      validateTransfer context package.targetTx package.targetValue
        (recipientAddr.getD package.targetTx.recipientAddr) package.witnessV2 = .ok () := by
  simp only [validateTransferPackage]
  split <;> simp_all

/-- An accepted package leads to a history of the recipient that has no bundle of its own yet. -/
theorem exists_acceptedWitness_iff (context : ValidationContext H) (package : TransferPackage H)
    (recipientAddr : Option Address) (witness : WitnessV2 H) :
    (∃ result, validateTransferPackage context package recipientAddr = .ok result ∧
        (if result.ok then result.acceptedWitness else none) = some witness) ↔
      validateTransfer context package.targetTx package.targetValue
          (recipientAddr.getD package.targetTx.recipientAddr) package.witnessV2 = .ok () ∧
        witness = .prior package.targetValue
          (recipientAddr.getD package.targetTx.recipientAddr) [] package.targetTx
          package.witnessV2 := by
  simp only [validateTransferPackage]
  split
  · next rejected => simp [rejected]
  · next raised => simp [raised]
  · next accepted =>
      simp only [accepted, Except.ok.injEq, exists_eq_left', if_true, Option.some.injEq, true_and]
      exact eq_comm

end V2TransferValidator

end EZChain
