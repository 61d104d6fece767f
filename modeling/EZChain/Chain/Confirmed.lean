import EZChain.Chain.Acceptance

/-!
# Confirmed units

A unit is confirmed by a chain when one of its blocks holds the bundle and issued the receipt.
The receipts of a sender are linked: a previous reference names the latest bundle of the sender
that an earlier block confirmed, whatever heights and seqs the blocks wrote into their heads.
-/

namespace EZChain

/-- Height of the confirming block. -/
def ConfirmedBundleUnit.height {H : Type} (unit : ConfirmedBundleUnit H) : ℕ :=
  unit.receipt.headerLite.height

/-- Sender of the bundle. -/
def ConfirmedBundleUnit.senderAddr {H : Type} (unit : ConfirmedBundleUnit H) : Address :=
  unit.bundleSidecar.senderAddr

namespace ChainStateV2

variable {H : Type} [Crypto H] [DecidableEq H]

/-- The block holds the unit's bundle and issued its receipt; any proof may stand in it. -/
def ConfirmedBy (state : ChainStateV2 H) (block : BlockV2 H) (unit : ConfirmedBundleUnit H) :
    Prop :=
  ∃ entry publicKey proof, (entry, unit.bundleSidecar, publicKey) ∈ diffItems block ∧
    unit.receipt = { state.appliedReceipt block
      (setLeaves state.tree block.diffPackage.diffEntries) entry with proof := proof }

/-- Some block of the chain confirmed the unit. -/
def Confirmed (initial : ChainStateV2 H) (blocks : List (BlockV2 H))
    (unit : ConfirmedBundleUnit H) : Prop :=
  ∃ before block after state, blocks = before ++ block :: after ∧
    initial.applyBlocks before = .ok state ∧ state.ConfirmedBy block unit

/-! ## One block -/

section Block

variable {state : ChainStateV2 H} {block : BlockV2 H} {unit other : ConfirmedBundleUnit H}

omit [DecidableEq H]

theorem ConfirmedBy.headerLite (confirmed : state.ConfirmedBy block unit) :
    unit.receipt.headerLite = ⟨block.header.height, block.blockHash, block.header.stateRoot⟩ := by
  obtain ⟨entry, publicKey, proof, _, receipt_eq⟩ := confirmed
  rw [receipt_eq]
  rfl

theorem ConfirmedBy.height_eq (accepted : state.BlockAccepted block)
    (confirmed : state.ConfirmedBy block unit) : unit.height = state.currentHeight + 1 := by
  rw [ConfirmedBundleUnit.height, confirmed.headerLite]
  exact accepted.height

/-- The receipt repeats the head that the sender had before the block. -/
theorem ConfirmedBy.prevRef_eq (accepted : state.BlockAccepted block)
    (confirmed : state.ConfirmedBy block unit) :
    unit.receipt.prevRef = state.headRefOf unit.senderAddr := by
  obtain ⟨entry, publicKey, proof, member, receipt_eq⟩ := confirmed
  have sender_eq := (accepted.entries _ member).sender
  rw [receipt_eq, ConfirmedBundleUnit.senderAddr, sender_eq]
  rfl

/-- A block confirms at most one bundle of a sender. -/
theorem ConfirmedBy.sidecar_eq (accepted : state.BlockAccepted block)
    (confirmed : state.ConfirmedBy block unit) (other_confirmed : state.ConfirmedBy block other)
    (sender_eq : unit.senderAddr = other.senderAddr) :
    unit.bundleSidecar = other.bundleSidecar := by
  obtain ⟨entry, publicKey, _, member, _⟩ := confirmed
  obtain ⟨other_entry, other_key, _, other_mem, _⟩ := other_confirmed
  have items_nodup : ((diffItems block).map fun item => item.1.newLeaf.addr).Nodup := by
    have senders_nodup := accepted.sendersNodup
    rw [← map_fst_diffItems accepted.keysLength, List.map_map] at senders_nodup
    exact senders_nodup
  have addr_eq : entry.newLeaf.addr = other_entry.newLeaf.addr := by
    rw [← (accepted.entries _ member).sender, ← (accepted.entries _ other_mem).sender]
    exact sender_eq
  have item_eq := List.inj_on_of_nodup_map items_nodup member other_mem addr_eq
  exact congrArg (fun item => item.2.1) item_eq

variable [DecidableEq H]

theorem BlockAccepted.exists_confirmedBy (accepted : state.BlockAccepted block) {sender : Address}
    (written : sender ∈ block.diffPackage.diffEntries.map fun entry => entry.newLeaf.addr) :
    ∃ unit headRef, state.ConfirmedBy block unit ∧ unit.senderAddr = sender ∧
      (state.nextState block).headRefOf sender = some headRef ∧
      headRef.blockHash = unit.receipt.headerLite.blockHash ∧
      headRef.bundleHash = computeBundleHash unit.bundleSidecar := by
  obtain ⟨entry, member, rfl⟩ := List.mem_map.mp written
  obtain ⟨sidecar, publicKey, item_mem, entry_accepted⟩ := accepted.exists_entryAccepted member
  obtain ⟨headRef, head_eq, bundle_eq, block_eq⟩ := entry_accepted.headRef
  have leaf_eq : (state.nextState block).accountLeaves.get? entry.newLeaf.addr =
      some entry.newLeaf :=
    get?_setAccountLeaves_of_mem state.accountLeaves accepted.sendersNodup member
  refine ⟨⟨state.appliedReceipt block (setLeaves state.tree block.diffPackage.diffEntries) entry,
    sidecar⟩, headRef, ⟨entry, publicKey, _, item_mem, rfl⟩, entry_accepted.sender, ?_, block_eq,
    bundle_eq⟩
  rw [headRefOf, leaf_eq]
  exact head_eq

omit [DecidableEq H] in
theorem ConfirmedBy.mem_written (accepted : state.BlockAccepted block)
    (confirmed : state.ConfirmedBy block unit) :
    unit.senderAddr ∈ block.diffPackage.diffEntries.map fun entry => entry.newLeaf.addr := by
  obtain ⟨entry, publicKey, _, member, _⟩ := confirmed
  rw [ConfirmedBundleUnit.senderAddr, (accepted.entries _ member).sender]
  exact List.mem_map_of_mem (List.of_mem_zip member).1

end Block

/-! ## Runs -/

section Runs

variable {initial state : ChainStateV2 H} {blocks : List (BlockV2 H)} {block : BlockV2 H}
  {unit other : ConfirmedBundleUnit H}

theorem Confirmed.append (confirmed : Confirmed initial blocks unit) (later : List (BlockV2 H)) :
    Confirmed initial (blocks ++ later) unit := by
  obtain ⟨before, block, after, state, rfl, reached, by_block⟩ := confirmed
  exact ⟨before, block, after ++ later, state, by simp, reached, by_block⟩

theorem confirmed_concat_iff (reached : initial.applyBlocks blocks = .ok state) :
    Confirmed initial (blocks ++ [block]) unit ↔
      Confirmed initial blocks unit ∨ state.ConfirmedBy block unit := by
  constructor
  · rintro ⟨before, confirming, after, earlier, blocks_eq, earlier_reached, by_block⟩
    rcases List.eq_nil_or_concat' after with rfl | ⟨after, last, rfl⟩
    · obtain ⟨rfl, last_eq⟩ := List.append_inj' blocks_eq rfl
      obtain rfl := List.singleton_inj.mp last_eq
      rw [reached, Except.ok.injEq] at earlier_reached
      exact Or.inr (earlier_reached ▸ by_block)
    · rw [← List.cons_append, ← List.append_assoc] at blocks_eq
      obtain ⟨rfl, _⟩ := List.append_inj' blocks_eq rfl
      exact Or.inl ⟨before, confirming, after, earlier, rfl, earlier_reached, by_block⟩
  · rintro (confirmed | by_block)
    · exact confirmed.append [block]
    · exact ⟨blocks, block, [], state, rfl, reached, by_block⟩

/-- The latest unit of a sender below a height, named by a reference. -/
structure LatestBefore (initial : ChainStateV2 H) (blocks : List (BlockV2 H)) (sender : Address)
    (bound : ℕ) (ref : BundleRef H) (unit : ConfirmedBundleUnit H) : Prop where
  confirmed : Confirmed initial blocks unit
  sender_eq : unit.senderAddr = sender
  blockHash : ref.blockHash = unit.receipt.headerLite.blockHash
  bundleHash : ref.bundleHash = computeBundleHash unit.bundleSidecar
  below : unit.height < bound
  latest : ∀ other, Confirmed initial blocks other → other.senderAddr = sender →
    other.height < bound → other.height ≤ unit.height

/-- The confirmed units of a chain and the references between them. -/
structure LinkedUnits (initial : ChainStateV2 H) (blocks : List (BlockV2 H))
    (state : ChainStateV2 H) : Prop where
  height_pos : ∀ unit, Confirmed initial blocks unit → initial.currentHeight < unit.height
  height_le : ∀ unit, Confirmed initial blocks unit → unit.height ≤ state.currentHeight
  /-- A sender has one bundle at a height. -/
  unique : ∀ unit other, Confirmed initial blocks unit → Confirmed initial blocks other →
    unit.senderAddr = other.senderAddr → unit.height = other.height →
    unit.bundleSidecar = other.bundleSidecar
  heads : ∀ sender ref, state.headRefOf sender = some ref →
    ∃ unit, LatestBefore initial blocks sender (state.currentHeight + 1) ref unit
  links : ∀ unit ref, Confirmed initial blocks unit → unit.receipt.prevRef = some ref →
    ∃ previous, LatestBefore initial blocks unit.senderAddr unit.height ref previous

theorem LatestBefore.concat {sender : Address} {bound : ℕ} {ref : BundleRef H}
    (latest : LatestBefore initial blocks sender bound ref unit)
    (reached : initial.applyBlocks blocks = .ok state) (accepted : state.BlockAccepted block)
    (bound_le : bound ≤ state.currentHeight + 1) :
    LatestBefore initial (blocks ++ [block]) sender bound ref unit where
  confirmed := latest.confirmed.append [block]
  sender_eq := latest.sender_eq
  blockHash := latest.blockHash
  bundleHash := latest.bundleHash
  below := latest.below
  latest := by
    intro other confirmed sender_eq below
    rcases (confirmed_concat_iff reached).mp confirmed with earlier | by_block
    · exact latest.latest other earlier sender_eq below
    · have height_eq := by_block.height_eq accepted
      omega

/-- A unit that the last block confirmed is the latest one of its sender. -/
theorem latestBefore_concat_self {ref : BundleRef H}
    (reached : initial.applyBlocks blocks = .ok state) (accepted : state.BlockAccepted block)
    (height_le : ∀ other, Confirmed initial blocks other → other.height ≤ state.currentHeight)
    (by_block : state.ConfirmedBy block unit)
    (block_eq : ref.blockHash = unit.receipt.headerLite.blockHash)
    (bundle_eq : ref.bundleHash = computeBundleHash unit.bundleSidecar) :
    LatestBefore initial (blocks ++ [block]) unit.senderAddr (state.currentHeight + 2) ref
      unit where
  confirmed := (confirmed_concat_iff reached).mpr (.inr by_block)
  sender_eq := rfl
  blockHash := block_eq
  bundleHash := bundle_eq
  below := by
    have height_eq := by_block.height_eq accepted
    omega
  latest := by
    intro other confirmed _ _
    have height_eq := by_block.height_eq accepted
    rcases (confirmed_concat_iff reached).mp confirmed with earlier | other_by_block
    · have other_le := height_le other earlier
      omega
    · have other_eq := other_by_block.height_eq accepted
      omega

theorem linkedUnits_nil (heads : ∀ sender, initial.headRefOf sender = none) :
    LinkedUnits initial [] initial := by
  have unconfirmed : ∀ unit, ¬ Confirmed initial [] unit := by
    rintro unit ⟨before, block, after, _, blocks_eq, _⟩
    exact absurd blocks_eq (by simp)
  exact
    { height_pos := fun unit confirmed => absurd confirmed (unconfirmed unit)
      height_le := fun unit confirmed => absurd confirmed (unconfirmed unit)
      unique := fun unit _ confirmed => absurd confirmed (unconfirmed unit)
      heads := fun sender ref head_eq => by rw [heads] at head_eq; cases head_eq
      links := fun unit _ confirmed => absurd confirmed (unconfirmed unit) }

/-- One accepted block extends the linked units. -/
theorem LinkedUnits.step (linked : LinkedUnits initial blocks state)
    (initial_le : initial.currentHeight ≤ state.currentHeight)
    (reached : initial.applyBlocks blocks = .ok state) (accepted : state.BlockAccepted block) :
    LinkedUnits initial (blocks ++ [block]) (state.nextState block) := by
  have height_next : (state.nextState block).currentHeight = state.currentHeight + 1 :=
    accepted.height
  have confirmed_cases : ∀ {unit : ConfirmedBundleUnit H},
      Confirmed initial (blocks ++ [block]) unit →
        Confirmed initial blocks unit ∨ state.ConfirmedBy block unit :=
    (confirmed_concat_iff reached).mp
  constructor
  case height_pos =>
    intro unit confirmed
    rcases confirmed_cases confirmed with earlier | by_block
    · exact linked.height_pos unit earlier
    · have height_eq := by_block.height_eq accepted
      omega
  case height_le =>
    intro unit confirmed
    rw [height_next]
    rcases confirmed_cases confirmed with earlier | by_block
    · have height_le := linked.height_le unit earlier
      omega
    · exact (by_block.height_eq accepted).le
  case unique =>
    intro unit other confirmed other_confirmed sender_eq height_eq
    rcases confirmed_cases confirmed with earlier | by_block <;>
      rcases confirmed_cases other_confirmed with other_earlier | other_by_block
    · exact linked.unique unit other earlier other_earlier sender_eq height_eq
    · have unit_le := linked.height_le unit earlier
      have other_eq := other_by_block.height_eq accepted
      omega
    · have other_le := linked.height_le other other_earlier
      have unit_eq := by_block.height_eq accepted
      omega
    · exact by_block.sidecar_eq accepted other_by_block sender_eq
  case heads =>
    intro sender ref head_eq
    rw [height_next]
    by_cases written : sender ∈ block.diffPackage.diffEntries.map fun entry => entry.newLeaf.addr
    · obtain ⟨unit, headRef, by_block, rfl, next_head, block_eq, bundle_eq⟩ :=
        accepted.exists_confirmedBy written
      rw [next_head, Option.some.injEq] at head_eq
      subst head_eq
      exact ⟨unit, latestBefore_concat_self reached accepted linked.height_le by_block block_eq
        bundle_eq⟩
    · have leaf_eq : (state.nextState block).accountLeaves.get? sender =
          state.accountLeaves.get? sender :=
        get?_setAccountLeaves_of_notMem state.accountLeaves written
      rw [headRefOf, leaf_eq, ← headRefOf] at head_eq
      obtain ⟨unit, latest⟩ := linked.heads sender ref head_eq
      have extended := latest.concat reached accepted le_rfl
      refine ⟨unit, extended.confirmed, extended.sender_eq, extended.blockHash,
        extended.bundleHash, by have below := extended.below; omega, ?_⟩
      intro other confirmed sender_eq _
      rcases confirmed_cases confirmed with earlier | by_block
      · have other_le := linked.height_le other earlier
        exact latest.latest other earlier sender_eq (by omega)
      · exact absurd (sender_eq ▸ by_block.mem_written accepted) written
  case links =>
    intro unit ref confirmed prev_eq
    rcases confirmed_cases confirmed with earlier | by_block
    · obtain ⟨previous, latest⟩ := linked.links unit ref earlier prev_eq
      have height_le := linked.height_le unit earlier
      exact ⟨previous, latest.concat reached accepted (by omega)⟩
    · rw [by_block.prevRef_eq accepted] at prev_eq
      obtain ⟨previous, latest⟩ := linked.heads unit.senderAddr ref prev_eq
      have height_eq := by_block.height_eq accepted
      rw [height_eq]
      exact ⟨previous, latest.concat reached accepted le_rfl⟩

theorem currentHeight_le_of_applyBlocks (applied : initial.applyBlocks blocks = .ok state) :
    initial.currentHeight ≤ state.currentHeight := by
  refine applyBlocks_induction
    (motive := fun _ state => initial.currentHeight ≤ state.currentHeight) le_rfl ?_ applied
  intro _ state block _ induction accepted
  have height_next : (state.nextState block).currentHeight = state.currentHeight + 1 :=
    accepted.height
  omega

/-- The units of every chain that starts without leaves are linked. -/
theorem linkedUnits_of_applyBlocks (heads : ∀ sender, initial.headRefOf sender = none)
    (applied : initial.applyBlocks blocks = .ok state) : LinkedUnits initial blocks state := by
  refine applyBlocks_induction (motive := fun blocks state => LinkedUnits initial blocks state)
    (linkedUnits_nil heads) ?_ applied
  intro blocks state block reached induction accepted
  exact induction.step (currentHeight_le_of_applyBlocks reached) reached accepted

/-- The block hash of a confirmed unit is derived from its height. -/
theorem Confirmed.height_eq_of_blockHash (ideal : IdealHash H)
    (applied : initial.applyBlocks blocks = .ok state) (confirmed : Confirmed initial blocks unit)
    (other_confirmed : Confirmed initial blocks other)
    (hash_eq : unit.receipt.headerLite.blockHash = other.receipt.headerLite.blockHash) :
    unit.height = other.height := by
  have derived : ∀ unit, Confirmed initial blocks unit → ∃ header : BlockHeaderV2 H, ∃ entries,
      header.height = unit.height ∧ deriveBlockHash header.version header.chainId header.height
        header.prevBlockHash header.timestamp header.proposerSig header.consensusExtra entries =
          unit.receipt.headerLite.blockHash := by
    rintro unit ⟨before, block, after, earlier, rfl, reached, by_block⟩
    obtain ⟨middle, before_reached, rest⟩ := (applyBlocks_append_eq_ok _ _ _ _).mp applied
    obtain ⟨accepted, _⟩ := (applyBlocks_cons_eq_ok _ _ _ _).mp rest
    refine ⟨block.header, block.diffPackage.diffEntries, ?_, ?_⟩
    · rw [ConfirmedBundleUnit.height, by_block.headerLite]
    · rw [by_block.headerLite]
      exact accepted.blockHash
  obtain ⟨header, entries, height_eq, unit_hash⟩ := derived unit confirmed
  obtain ⟨other_header, other_entries, other_height_eq, other_hash⟩ := derived other other_confirmed
  rw [← height_eq, ← other_height_eq]
  exact (deriveBlockHash_injective ideal (unit_hash.trans (hash_eq.trans other_hash.symm))).1

/-- A unit whose receipt refers to another one follows it immediately in its sender's history. -/
theorem LinkedUnits.follows (ideal : IdealHash H) (linked : LinkedUnits initial blocks state)
    (applied : initial.applyBlocks blocks = .ok state) {previous : ConfirmedBundleUnit H}
    (confirmed : Confirmed initial blocks unit)
    (previous_confirmed : Confirmed initial blocks previous)
    (prev_eq : unit.receipt.prevRef = some (confirmedRef previous)) :
    previous.senderAddr = unit.senderAddr ∧ previous.height < unit.height ∧
      ∀ other, Confirmed initial blocks other → other.senderAddr = unit.senderAddr →
        other.height < unit.height → other.height ≤ previous.height := by
  obtain ⟨latest, is_latest⟩ := linked.links unit _ confirmed prev_eq
  have height_eq : previous.height = latest.height :=
    previous_confirmed.height_eq_of_blockHash ideal applied is_latest.confirmed is_latest.blockHash
  have sidecar_eq : previous.bundleSidecar = latest.bundleSidecar :=
    computeBundleHash_injective ideal is_latest.bundleHash
  refine ⟨?_, ?_, ?_⟩
  · rw [ConfirmedBundleUnit.senderAddr, sidecar_eq]
    exact is_latest.sender_eq
  · rw [height_eq]
    exact is_latest.below
  · rw [height_eq]
    exact is_latest.latest

end Runs

end ChainStateV2

end EZChain
