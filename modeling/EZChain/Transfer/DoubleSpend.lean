import EZChain.Transfer.Issued

/-!
# Double spends

The presented units of a sender are all its units between the oldest and the newest one, because
every unit refers to the next older one.  Nothing ties the oldest unit to the acquisition of the
value, so an accepted transfer excludes earlier spends exactly when the bundles left out between
the acquisition and the oldest unit do not touch the value.
-/

namespace EZChain

namespace WitnessV2

variable {H : Type}

/-- Height of the newest presented unit. -/
def newestHeight (witness : WitnessV2 H) : ℕ :=
  (witness.confirmedBundleChain.head?.map ConfirmedBundleUnit.height).getD 0

/-- Height of the oldest presented unit. -/
def oldestHeight (witness : WitnessV2 H) : ℕ :=
  (witness.confirmedBundleChain.getLast?.map ConfirmedBundleUnit.height).getD 0

/-- Height of the unit that acquired the value; a value held from the start has height 0. -/
def acquisitionHeight : WitnessV2 H → ℕ
  | genesis _ _ _ _ | checkpoint _ _ _ _ => 0
  | prior _ _ _ _ priorWitness => priorWitness.newestHeight

theorem confirmedBundleChain_subset (witness : WitnessV2 H) :
    witness.confirmedBundleChain ⊆ witness.allUnits := by
  cases witness with
  | genesis value owner chain anchor => exact List.Subset.refl chain
  | checkpoint value owner chain checkpoint => exact List.Subset.refl chain
  | prior value owner chain acquireTx priorWitness => exact List.subset_append_left _ _

end WitnessV2

namespace V2TransferValidator

variable {H : Type} [Crypto H] [DecidableEq H]

/-- No bundle of the owner confirmed strictly between two heights touches the value. -/
def NoConflict (initial : ChainStateV2 H) (blocks : List (BlockV2 H)) (owner : Address)
    (value : ValueRange) (low high : ℕ) : Prop :=
  ∀ unit, ChainStateV2.Confirmed initial blocks unit → unit.senderAddr = owner →
    low < unit.height → unit.height < high → ¬ Touches unit.bundleSidecar value

/-- The validator's result is ok. -/
def Accepts (context : ValidationContext H) (package : TransferPackage H)
    (recipientAddr : Option Address) : Prop :=
  ∃ result, validateTransferPackage context package recipientAddr = .ok result ∧ result.ok = true

/-- All units of the package were confirmed by the chain. -/
def Genuine (initial : ChainStateV2 H) (blocks : List (BlockV2 H)) (package : TransferPackage H) :
    Prop :=
  ∀ unit ∈ package.witnessV2.allUnits, ChainStateV2.Confirmed initial blocks unit

/-! ## The presented segment -/

section Segment

variable {initial final : ChainStateV2 H} {blocks : List (BlockV2 H)}

/-- Linked units of a sender get older along the list, and leave no unit of the sender out. -/
theorem exists_presented (ideal : IdealHash H)
    (linked : ChainStateV2.LinkedUnits initial blocks final)
    (applied : initial.applyBlocks blocks = .ok final) (latest : ConfirmedBundleUnit H)
    (older : List (ConfirmedBundleUnit H))
    (confirmed : ∀ unit ∈ latest :: older, ChainStateV2.Confirmed initial blocks unit)
    (chained : (latest :: older).IsChain fun unit next =>
      unit.receipt.prevRef = some (confirmedRef next)) :
    ((latest :: older).getLast (List.cons_ne_nil _ _)).height ≤ latest.height ∧
      ∀ unit, ChainStateV2.Confirmed initial blocks unit → unit.senderAddr = latest.senderAddr →
        ((latest :: older).getLast (List.cons_ne_nil _ _)).height ≤ unit.height →
        unit.height < latest.height →
        ∃ presented ∈ older, presented.bundleSidecar = unit.bundleSidecar := by
  induction older generalizing latest with
  | nil =>
      refine ⟨le_rfl, fun unit _ _ oldest_le below => ?_⟩
      rw [List.getLast_singleton] at oldest_le
      omega
  | cons next older induction =>
      obtain ⟨prev_eq, rest_chained⟩ := List.isChain_cons_cons.mp chained
      obtain ⟨latest_confirmed, rest_confirmed⟩ := List.forall_mem_cons.mp confirmed
      obtain ⟨next_confirmed, _⟩ := List.forall_mem_cons.mp rest_confirmed
      obtain ⟨sender_eq, next_below, no_gap⟩ :=
        linked.follows ideal applied latest_confirmed next_confirmed prev_eq
      obtain ⟨oldest_le, covered⟩ := induction next rest_confirmed rest_chained
      rw [List.getLast_cons (List.cons_ne_nil next older)]
      refine ⟨by omega, fun unit unit_confirmed unit_sender unit_above unit_below => ?_⟩
      have unit_le := no_gap unit unit_confirmed unit_sender unit_below
      rcases Nat.eq_or_lt_of_le unit_le with height_eq | below_next
      · exact ⟨next, List.mem_cons_self, linked.unique next unit next_confirmed unit_confirmed
          (sender_eq.trans unit_sender.symm) height_eq.symm⟩
      · obtain ⟨presented, member, sidecar_eq⟩ := covered unit unit_confirmed
          (unit_sender.trans sender_eq.symm) unit_above below_next
        exact ⟨presented, List.mem_cons_of_mem next member, sidecar_eq⟩

/-- The newest segment of an accepted transfer starts after the acquisition. -/
theorem exists_segment (context : ValidationContext H) (targetTx : OffChainTx)
    (targetValue : ValueRange) (recipient : Address) (witness : WitnessV2 H)
    (accepted : validateTransfer context targetTx targetValue recipient witness = .ok ())
    (height_pos : ∀ unit ∈ witness.confirmedBundleChain, 0 < unit.height) :
    ∃ latest older, witness.confirmedBundleChain = latest :: older ∧
      SegmentAccepted targetTx targetValue witness.currentOwnerAddr latest older recipient ∧
      witness.acquisitionHeight <
        ((latest :: older).getLast (List.cons_ne_nil _ _)).height := by
  cases witness with
  | genesis value owner chain anchor =>
      obtain ⟨checked, _⟩ :=
        (validateTransfer_genesis_eq_ok _ _ _ _ _ _ _ _ _).mp accepted
      obtain ⟨latest, older, rfl, segment⟩ := (checkSegment_eq_ok _ _ _ _ _ _).mp checked
      exact ⟨latest, older, rfl, segment, height_pos _ (List.getLast_mem _)⟩
  | checkpoint value owner chain checkpoint =>
      obtain ⟨checked, _⟩ :=
        (validateTransfer_checkpoint_eq_ok _ _ _ _ _ _ _ _ _).mp accepted
      obtain ⟨latest, older, rfl, segment⟩ := (checkSegment_eq_ok _ _ _ _ _ _).mp checked
      exact ⟨latest, older, rfl, segment, height_pos _ (List.getLast_mem _)⟩
  | prior value owner chain acquireTx priorWitness =>
      obtain ⟨checked, _, acquireUnit, head_eq, boundary⟩ :=
        (validateTransfer_prior_eq_ok _ _ _ _ _ _ _ _ _ _).mp accepted
      obtain ⟨latest, older, rfl, segment⟩ := (checkSegment_eq_ok _ _ _ _ _ _).mp checked
      refine ⟨latest, older, rfl, segment, ?_⟩
      rw [WitnessV2.acquisitionHeight, WitnessV2.newestHeight, head_eq]
      exact boundary _ (List.getLast?_eq_getLast_of_ne_nil _)

end Segment

/-! ## Accepted packages -/

section Packages

variable {initial final : ChainStateV2 H} {blocks : List (BlockV2 H)}

/-- What an accepted package of genuine units shows about the sender's history. -/
structure Presented (initial : ChainStateV2 H) (blocks : List (BlockV2 H))
    (package : TransferPackage H) (recipient : Address) (latest : ConfirmedBundleUnit H)
    (older : List (ConfirmedBundleUnit H)) : Prop where
  segment : SegmentAccepted package.targetTx package.targetValue package.witnessV2.currentOwnerAddr
    latest older recipient
  newest : package.witnessV2.newestHeight = latest.height
  confirmed : ∀ unit ∈ latest :: older, ChainStateV2.Confirmed initial blocks unit
  acquired : package.witnessV2.acquisitionHeight < package.witnessV2.oldestHeight
  ordered : package.witnessV2.oldestHeight ≤ latest.height
  /-- No unit between the oldest and the newest one is left out. -/
  complete : ∀ unit, ChainStateV2.Confirmed initial blocks unit →
    unit.senderAddr = latest.senderAddr → package.witnessV2.oldestHeight ≤ unit.height →
    unit.height < latest.height → ∃ presented ∈ older, presented.bundleSidecar = unit.bundleSidecar

theorem exists_presented_of_accepts (ideal : IdealHash H)
    (linked : ChainStateV2.LinkedUnits initial blocks final)
    (applied : initial.applyBlocks blocks = .ok final) {context : ValidationContext H}
    {package : TransferPackage H} {recipientAddr : Option Address}
    (genuine : Genuine initial blocks package) (accepted : Accepts context package recipientAddr) :
    ∃ latest older, Presented initial blocks package
      (recipientAddr.getD package.targetTx.recipientAddr) latest older := by
  have validated := (validateTransferPackage_ok_iff context package recipientAddr).mp accepted
  have chain_confirmed : ∀ unit ∈ package.witnessV2.confirmedBundleChain,
      ChainStateV2.Confirmed initial blocks unit :=
    fun unit member => genuine unit (package.witnessV2.confirmedBundleChain_subset member)
  have height_pos : ∀ unit ∈ package.witnessV2.confirmedBundleChain, 0 < unit.height := by
    intro unit member
    have above := linked.height_pos unit (chain_confirmed unit member)
    omega
  obtain ⟨latest, older, chain_eq, segment, acquired⟩ :=
    exists_segment context _ _ _ package.witnessV2 validated height_pos
  rw [chain_eq] at chain_confirmed
  have oldest_eq : package.witnessV2.oldestHeight =
      ((latest :: older).getLast (List.cons_ne_nil _ _)).height := by
    rw [WitnessV2.oldestHeight, chain_eq, List.getLast?_eq_getLast_of_ne_nil (List.cons_ne_nil _ _)]
    rfl
  have newest_eq : package.witnessV2.newestHeight = latest.height := by
    rw [WitnessV2.newestHeight, chain_eq]
    rfl
  obtain ⟨ordered, complete⟩ :=
    exists_presented ideal linked applied latest older chain_confirmed segment.linked
  rw [← oldest_eq] at acquired ordered complete
  exact ⟨latest, older, segment, newest_eq, chain_confirmed, acquired, ordered, complete⟩

variable {package other : TransferPackage H} {recipient otherRecipient : Address}
  {latest otherLatest : ConfirmedBundleUnit H} {older otherOlder : List (ConfirmedBundleUnit H)}

theorem Presented.noConflict_iff
    (presented : Presented initial blocks package recipient latest older) :
    NoConflict initial blocks package.witnessV2.currentOwnerAddr package.targetValue
        package.witnessV2.acquisitionHeight package.witnessV2.newestHeight ↔
      NoConflict initial blocks package.witnessV2.currentOwnerAddr package.targetValue
        package.witnessV2.acquisitionHeight package.witnessV2.oldestHeight := by
  rw [presented.newest]
  constructor
  · intro clean unit confirmed sender_eq above below
    exact clean unit confirmed sender_eq above (below.trans_le presented.ordered)
  · intro clean unit confirmed sender_eq above below
    rcases Nat.lt_or_ge unit.height package.witnessV2.oldestHeight with before | presented_height
    · exact clean unit confirmed sender_eq above before
    · obtain ⟨shown, member, sidecar_eq⟩ := presented.complete unit confirmed
        (sender_eq.trans presented.segment.latest_sender.symm) presented_height below
      rw [← sidecar_eq]
      exact presented.segment.olderClean shown member

/-- The bundle of an accepted package touches every value that meets the target value. -/
theorem Presented.touches (presented : Presented initial blocks package recipient latest older)
    {value : ValueRange} (overlap : package.targetValue.intersects value = true) :
    Touches latest.bundleSidecar value := by
  obtain ⟨txValue, value_mem, contains⟩ := presented.segment.covered
  refine ⟨package.targetTx, presented.segment.targetTx_mem, txValue, value_mem, ?_⟩
  simp only [ValueRange.containsRange_iff, ValueRange.intersects_iff] at *
  omega

theorem Presented.not_before (presented : Presented initial blocks package recipient latest older)
    (other_presented : Presented initial blocks other otherRecipient otherLatest otherOlder)
    (owner_eq : package.witnessV2.currentOwnerAddr = other.witnessV2.currentOwnerAddr)
    (acquisition_eq : package.witnessV2.acquisitionHeight = other.witnessV2.acquisitionHeight)
    (overlap : package.targetValue.intersects other.targetValue = true)
    (clean : NoConflict initial blocks other.witnessV2.currentOwnerAddr other.targetValue
      other.witnessV2.acquisitionHeight other.witnessV2.newestHeight) :
    ¬ latest.height < otherLatest.height := by
  intro earlier
  have sender_eq : latest.senderAddr = other.witnessV2.currentOwnerAddr :=
    presented.segment.latest_sender.trans owner_eq
  have above : other.witnessV2.acquisitionHeight < latest.height := by
    rw [← acquisition_eq]
    exact presented.acquired.trans_le presented.ordered
  have below : latest.height < other.witnessV2.newestHeight := by
    rw [other_presented.newest]
    exact earlier
  exact clean latest (presented.confirmed latest List.mem_cons_self) sender_eq above below
    (presented.touches overlap)

/-- Two clean packages that spend one acquisition spend it by the same transfer. -/
theorem Presented.targetTx_eq (linked : ChainStateV2.LinkedUnits initial blocks final)
    (presented : Presented initial blocks package recipient latest older)
    (other_presented : Presented initial blocks other otherRecipient otherLatest otherOlder)
    (owner_eq : package.witnessV2.currentOwnerAddr = other.witnessV2.currentOwnerAddr)
    (acquisition_eq : package.witnessV2.acquisitionHeight = other.witnessV2.acquisitionHeight)
    (overlap : package.targetValue.intersects other.targetValue = true)
    (clean : NoConflict initial blocks package.witnessV2.currentOwnerAddr package.targetValue
      package.witnessV2.acquisitionHeight package.witnessV2.newestHeight)
    (other_clean : NoConflict initial blocks other.witnessV2.currentOwnerAddr other.targetValue
      other.witnessV2.acquisitionHeight other.witnessV2.newestHeight) :
    package.targetTx = other.targetTx := by
  have not_before :=
    presented.not_before other_presented owner_eq acquisition_eq overlap other_clean
  have not_after := other_presented.not_before presented owner_eq.symm acquisition_eq.symm
    (by rw [ValueRange.intersects_comm]; exact overlap) clean
  have height_eq : latest.height = otherLatest.height := by omega
  have sender_eq : latest.senderAddr = otherLatest.senderAddr :=
    presented.segment.latest_sender.trans
      (owner_eq.trans other_presented.segment.latest_sender.symm)
  have sidecar_eq := linked.unique latest otherLatest
    (presented.confirmed latest List.mem_cons_self)
    (other_presented.confirmed otherLatest List.mem_cons_self) sender_eq height_eq
  -- Both targets are in one bundle, where only the other target may touch its value.
  obtain ⟨txValue, value_mem, contains⟩ := presented.segment.covered
  have member : package.targetTx ∈ otherLatest.bundleSidecar.txList :=
    sidecar_eq ▸ presented.segment.targetTx_mem
  have meets : txValue.intersects other.targetValue = true := by
    simp only [ValueRange.containsRange_iff, ValueRange.intersects_iff] at *
    omega
  exact (other_presented.segment.latestClean package.targetTx member txValue value_mem meets).1

end Packages

/-- A package of genuine units that the validator accepts excludes all conflicting bundles since
the acquisition exactly when the bundles left out before its oldest unit do not conflict; and two
such packages never spend one acquisition by different transfers. -/
theorem noDoubleSpend_iff (ideal : IdealHash H) (version chainId receiptCacheBlocks maxBundleBytes
    maxTxPerBundle maxValueEntriesPerTx : ℕ) (genesisBlockHash : H) (blocks : List (BlockV2 H))
    (final : ChainStateV2 H)
    (applied : (ChainStateV2.new version chainId receiptCacheBlocks maxBundleBytes maxTxPerBundle
      maxValueEntriesPerTx genesisBlockHash).applyBlocks blocks = .ok final)
    (context : ValidationContext H) (package : TransferPackage H)
    (recipientAddr : Option Address) :
    let initial := ChainStateV2.new version chainId receiptCacheBlocks maxBundleBytes
      maxTxPerBundle maxValueEntriesPerTx genesisBlockHash
    let clean := fun (package : TransferPackage H) (high : WitnessV2 H → ℕ) =>
      NoConflict initial blocks package.witnessV2.currentOwnerAddr package.targetValue
        package.witnessV2.acquisitionHeight (high package.witnessV2)
    Genuine initial blocks package → Accepts context package recipientAddr →
      (clean package WitnessV2.newestHeight ↔ clean package WitnessV2.oldestHeight) ∧
        ∀ (otherContext : ValidationContext H) (other : TransferPackage H)
          (otherRecipientAddr : Option Address), Genuine initial blocks other →
          Accepts otherContext other otherRecipientAddr →
          package.witnessV2.currentOwnerAddr = other.witnessV2.currentOwnerAddr →
          package.witnessV2.acquisitionHeight = other.witnessV2.acquisitionHeight →
          package.targetValue.intersects other.targetValue = true →
          clean package WitnessV2.oldestHeight → clean other WitnessV2.oldestHeight →
          package.targetTx = other.targetTx := by
  intro initial clean genuine accepted
  have linked : ChainStateV2.LinkedUnits initial blocks final :=
    ChainStateV2.linkedUnits_of_applyBlocks (fun _ => rfl) applied
  obtain ⟨latest, older, presented⟩ :=
    exists_presented_of_accepts ideal linked applied genuine accepted
  refine ⟨presented.noConflict_iff, ?_⟩
  intro otherContext other otherRecipientAddr other_genuine other_accepted owner_eq acquisition_eq
    overlap clean_omitted other_clean_omitted
  obtain ⟨otherLatest, otherOlder, other_presented⟩ :=
    exists_presented_of_accepts ideal linked applied other_genuine other_accepted
  exact presented.targetTx_eq linked other_presented owner_eq acquisition_eq overlap
    (presented.noConflict_iff.mpr clean_omitted)
    (other_presented.noConflict_iff.mpr other_clean_omitted)

section Examples

open SymbolicDigest ChainStateV2

/-- Alice's transfer to Carol of the range that her first bundle moved to Bob. -/
def secondSpend : BundleSidecar := transferBundle alice carol coin

/-- The second spend as a host would confirm it. -/
def secondSpendEntry : PeerEntry SymbolicDigest :=
  afterFirst.honestEntry (signedEnvelope secondSpend 2 Nat.two_pos [1]) secondSpend [1]

theorem secondSpendEntry_valid : PeerEntryValid afterFirst secondSpendEntry where
  signer := rfl
  bundleHash := rfl
  claimSet := .inl rfl
  signature := by decide
  notExpired := by decide
  prevRef := rfl
  seq := by decide
  known := by
    rintro leaf ⟨⟩
    decide

/-- The chain that confirms both bundles. -/
def spentTwice : List (BlockV2 SymbolicDigest) :=
  [genesis.peerBlock 1 firstEntry, afterFirst.peerBlock 2 secondSpendEntry]

/-- Alice's genesis allocation, and no trusted checkpoint. -/
def aliceContext : ValidationContext SymbolicDigest where
  genesisAllocations := OrderedDict.set ∅ alice [coin]
  trustedCheckpoints := []

/-- The transfer of a bundle, presented with its unit alone on top of the genesis allocation. -/
def singleUnitPackage (sidecar : BundleSidecar) (nonempty : sidecar.txList ≠ [])
    (unit : ConfirmedBundleUnit SymbolicDigest) : TransferPackage SymbolicDigest where
  targetTx := sidecar.txList.head nonempty
  targetValue := coin
  witnessV2 := .genesis coin alice [unit] ⟨filled 0, alice, 0, 9, by decide⟩

/-- The first bundle, presented to Bob. -/
def firstPackage : TransferPackage SymbolicDigest :=
  singleUnitPackage firstBundle (List.cons_ne_nil _ _) (peerUnit genesis 1 firstEntry)

/-- The second spend, presented to Carol without the first bundle. -/
def secondPackage : TransferPackage SymbolicDigest :=
  singleUnitPackage secondSpend (List.cons_ne_nil _ _) (peerUnit afterFirst 2 secondSpendEntry)

theorem spentTwice_applied : genesis.applyBlocks spentTwice =
    .ok (afterFirst.nextState (afterFirst.peerBlock 2 secondSpendEntry)) := by
  simp only [spentTwice, applyBlocks_cons_eq_ok, applyBlocks_nil]
  exact ⟨peerBlock_accepted 1 firstEntry_valid, peerBlock_accepted 2 secondSpendEntry_valid, rfl⟩

theorem firstUnit_confirmed : Confirmed genesis spentTwice (peerUnit genesis 1 firstEntry) :=
  ⟨[], _, _, genesis, rfl, rfl, confirmedBy_peerUnit genesis 1 firstEntry⟩

theorem secondUnit_confirmed :
    Confirmed genesis spentTwice (peerUnit afterFirst 2 secondSpendEntry) := by
  have reached : genesis.applyBlocks [genesis.peerBlock 1 firstEntry] = .ok afterFirst :=
    (applyBlocks_cons_eq_ok _ _ _ _).mpr ⟨peerBlock_accepted 1 firstEntry_valid, rfl⟩
  exact ⟨[_], _, [], afterFirst, rfl, reached, confirmedBy_peerUnit afterFirst 2 secondSpendEntry⟩

theorem singleUnitPackage_accepted {sidecar : BundleSidecar} (nonempty : sidecar.txList ≠ [])
    {unit : ConfirmedBundleUnit SymbolicDigest} (sidecar_eq : unit.bundleSidecar = sidecar)
    (receipt : ReceiptAccepted unit)
    (sender_eq : (sidecar.txList.head nonempty).senderAddr = alice)
    (covered : txContainsTargetValue (sidecar.txList.head nonempty) ⟨0, 9, by decide⟩ = true)
    (once : (sidecar.txList.filter fun tx => tx = sidecar.txList.head nonempty).length = 1)
    (clean : LatestClean (sidecar.txList.head nonempty) ⟨0, 9, by decide⟩ sidecar) :
    Accepts aliceContext (singleUnitPackage sidecar nonempty unit) none := by
  subst sidecar_eq
  apply (validateTransferPackage_ok_iff _ _ _).mpr
  apply (validateTransfer_genesis_eq_ok _ _ _ _ _ _ _ _ _).mpr
  refine ⟨(checkSegment_eq_ok _ _ _ _ _ _).mpr ⟨unit, [], rfl, ?_⟩, rfl⟩
  exact
    { owner_eq := sender_eq.symm
      recipient_eq := rfl
      covered := List.any_eq_true.mp covered
      once := once
      receipts := List.forall_mem_singleton.mpr receipt
      linked := .singleton unit
      latestClean := clean
      olderClean := by simp }

theorem firstPackage_accepted : Accepts aliceContext firstPackage none :=
  singleUnitPackage_accepted _ rfl (receiptAccepted_peerUnit firstEntry_valid) rfl (by decide)
    (by decide) (by decide)

theorem secondPackage_accepted : Accepts aliceContext secondPackage none :=
  singleUnitPackage_accepted _ rfl (receiptAccepted_peerUnit secondSpendEntry_valid) rfl
    (by decide) (by decide) (by decide)

/-- The bundles that Bob's package leaves out do not conflict, so no bundle does. -/
theorem noDoubleSpend_firstPackage :
    NoConflict genesis spentTwice alice ⟨0, 9, by decide⟩ 0 1 := by
  have genuine : Genuine genesis spentTwice firstPackage :=
    List.forall_mem_singleton.mpr firstUnit_confirmed
  apply (noDoubleSpend_iff idealHash 2 1 32 32768 128 64 (filled 0) spentTwice _ spentTwice_applied
    aliceContext firstPackage none genuine firstPackage_accepted).1.mpr
  intro unit _ _ above below
  have oldest_eq : firstPackage.witnessV2.oldestHeight = 1 := rfl
  omega

/-- Both packages are accepted, although the second leaves out the bundle that spent the value. -/
theorem doubleSpend_accepted :
    Genuine genesis spentTwice firstPackage ∧ Accepts aliceContext firstPackage none ∧
      Genuine genesis spentTwice secondPackage ∧ Accepts aliceContext secondPackage none ∧
      firstPackage.targetTx ≠ secondPackage.targetTx ∧
      ¬ NoConflict genesis spentTwice alice ⟨0, 9, by decide⟩
        secondPackage.witnessV2.acquisitionHeight secondPackage.witnessV2.newestHeight := by
  refine ⟨List.forall_mem_singleton.mpr firstUnit_confirmed, firstPackage_accepted,
    List.forall_mem_singleton.mpr secondUnit_confirmed, secondPackage_accepted, by decide, ?_⟩
  intro clean
  apply clean _ firstUnit_confirmed rfl (by decide) (by decide)
  exact ⟨_, List.mem_cons_self, _, List.mem_cons_self, by decide⟩

end Examples

end V2TransferValidator

end EZChain
