import EZChain.Chain.Acceptance

/-!
# Blocks assembled by a peer

A peer chooses every field of the block it supplies.  Blocks that confirm one bundle are described
by the fields that `apply_block` reads from the entry; their hash and roots are computed as the
checks expect them.
-/

namespace EZChain

namespace ChainStateV2

variable {H : Type} [Crypto H] [DecidableEq H]

/-- The choices a peer makes for a block with one entry. -/
structure PeerEntry (H : Type) where
  /-- The tree key that the leaf is written under. -/
  addrKey : Bytes32
  /-- The bundle's envelope. -/
  envelope : BundleEnvelope H
  /-- The bundle. -/
  sidecar : BundleSidecar
  /-- The sender's key. -/
  publicKey : Bytes
  /-- Height written into the head of the new leaf. -/
  headHeight : ℕ
  /-- Seq written into the head of the new leaf. -/
  headSeq : ℕ
  /-- Sequence numbers start at 1. -/
  headSeq_pos : 0 < headSeq
  /-- Previous reference written into the new leaf. -/
  prevRef : Option (BundleRef H)

/-- The diff entry of a peer's choices under a block hash. -/
def PeerEntry.diffEntry (peer : PeerEntry H) (blockHash : H) : DiffEntry H where
  addrKey := peer.addrKey
  newLeaf :=
    { addr := peer.sidecar.senderAddr
      headRef := some
        { height := peer.headHeight
          blockHash := blockHash
          bundleHash := peer.envelope.bundleHash
          seq := peer.headSeq
          seq_pos := peer.headSeq_pos }
      prevRef := peer.prevRef
      claimSetHash := peer.envelope.claimSetHash }
  bundleEnvelope := peer.envelope
  bundleHash := peer.envelope.bundleHash

/-- Hash of the block that confirms one bundle on top of a state. -/
def peerBlockHash (state : ChainStateV2 H) (timestamp : ℕ) (peer : PeerEntry H) : H :=
  deriveBlockHash state.version state.chainId (state.currentHeight + 1) state.currentBlockHash
    timestamp [] [] [peer.diffEntry Crypto.zeroHash32]

/-- The block that confirms one bundle on top of a state. -/
def peerBlock (state : ChainStateV2 H) (timestamp : ℕ) (peer : PeerEntry H) : BlockV2 H :=
  let blockHash := state.peerBlockHash timestamp peer
  let entries := [peer.diffEntry blockHash]
  { blockHash := blockHash
    header :=
      { version := state.version
        chainId := state.chainId
        height := state.currentHeight + 1
        prevBlockHash := state.currentBlockHash
        stateRoot := (setLeaves state.tree entries).root
        diffRoot := computeDiffRoot entries
        timestamp := timestamp
        proposerSig := []
        consensusExtra := [] }
    diffPackage :=
      { diffEntries := entries
        sidecars := [peer.sidecar]
        senderPublicKeys := [peer.publicKey]
        sidecars_length := rfl
        keys_length := fun _ => rfl } }

/-- What `apply_block` requires of a peer's choices. -/
structure PeerEntryValid (state : ChainStateV2 H) (peer : PeerEntry H) : Prop where
  signer : Crypto.addressFromPublicKeyPem H peer.publicKey = .ok peer.sidecar.senderAddr
  bundleHash : peer.envelope.bundleHash = computeBundleHash peer.sidecar
  claimSet : peer.envelope.claimSetHash = none ∨ peer.envelope.claimSetHash =
    some (claimRangeSetHash (claimRangeSetFromSidecar peer.sidecar))
  signature : verifyBundleEnvelope peer.envelope peer.publicKey = true
  notExpired : state.currentHeight + 1 ≤ peer.envelope.expiryHeight
  prevRef : peer.prevRef = state.headRefOf peer.sidecar.senderAddr
  seq : peer.envelope.seq = state.confirmedSeq peer.sidecar.senderAddr + 1
  known : ∀ leaf, state.accountLeaves.get? peer.sidecar.senderAddr = some leaf → leaf.headRef ≠ none

omit [DecidableEq H] in
/-- A block with one valid entry is accepted; the tree key and the height and seq of the new head
are not among the requirements. -/
theorem peerBlock_accepted {state : ChainStateV2 H} {peer : PeerEntry H} (timestamp : ℕ)
    (valid : state.PeerEntryValid peer) : state.BlockAccepted (state.peerBlock timestamp peer) where
  version := rfl
  chainId := rfl
  height := rfl
  prevBlockHash := rfl
  sorted := rfl
  keysNodup := List.nodup_singleton _
  keysLength := rfl
  blockHash := rfl
  entries := by
    intro item member
    obtain rfl := List.mem_singleton.mp member
    exact
      { signer := valid.signer
        sender := rfl
        bundleHash := valid.bundleHash
        envelopeHash := valid.bundleHash
        claimSet := valid.claimSet
        leafClaimSet := rfl
        signature := valid.signature
        notExpired := valid.notExpired
        prevRef := valid.prevRef
        seq := valid.seq
        known := valid.known
        headRef := ⟨_, rfl, valid.bundleHash, rfl⟩ }
  sendersNodup := List.nodup_singleton _
  diffRoot := rfl
  stateRoot := rfl

/-- The choices that execution of the bundle would make. -/
def honestEntry (state : ChainStateV2 H) (envelope : BundleEnvelope H) (sidecar : BundleSidecar)
    (publicKey : Bytes) : PeerEntry H where
  addrKey := computeAddrKey H sidecar.senderAddr
  envelope := envelope
  sidecar := sidecar
  publicKey := publicKey
  headHeight := state.currentHeight + 1
  headSeq := envelope.seq
  headSeq_pos := envelope.seq_pos
  prevRef := state.headRefOf sidecar.senderAddr

end ChainStateV2

/-! ## Bundles over symbolic digests -/

namespace SymbolicDigest

/-- A bundle with one transfer of one range. -/
def transferBundle (sender recipient : Address) (range : ValueRange) : BundleSidecar where
  senderAddr := sender
  txList := [{
    senderAddr := sender
    recipientAddr := recipient
    valueList := [range]
    txLocalIndex := 0
    txTime := 0
    extraData := []
    valueList_ne_nil := List.cons_ne_nil _ _
    valueList_sorted := List.pairwise_singleton _ _ }]
  sender_eq := by simp

/-- The envelope of a bundle, signed with a key. -/
def signedEnvelope (sidecar : BundleSidecar) (seq : ℕ) (seq_pos : 0 < seq) (publicKey : Bytes) :
    BundleEnvelope SymbolicDigest where
  version := 2
  chainId := 1
  seq := seq
  expiryHeight := 100
  fee := 0
  antiSpamNonce := 0
  bundleHash := computeBundleHash sidecar
  claimSetHash := none
  sig := publicKey
  seq_pos := seq_pos

/-- The chain before its first block. -/
abbrev genesis : ChainStateV2 SymbolicDigest := .new 2 1 32 32768 128 64 (filled 0)

/-- The value of Alice. -/
abbrev coin : ValueRange := ⟨0, 9, by decide⟩

/-- Alice's first bundle. -/
def firstBundle : BundleSidecar := transferBundle alice bob coin

/-- Alice's first bundle as a host would confirm it. -/
def firstEntry : ChainStateV2.PeerEntry SymbolicDigest :=
  ChainStateV2.honestEntry genesis (signedEnvelope firstBundle 1 Nat.one_pos [1]) firstBundle [1]

/-- The chain after Alice's first bundle. -/
def afterFirst : ChainStateV2 SymbolicDigest :=
  genesis.nextState (genesis.peerBlock 1 firstEntry)

theorem firstEntry_valid : genesis.PeerEntryValid firstEntry where
  signer := rfl
  bundleHash := rfl
  claimSet := .inl rfl
  signature := by decide
  notExpired := by decide
  prevRef := rfl
  seq := by decide
  known := by decide

/-- Bob's first bundle hands on what Alice's moved to him. -/
def bobBundle : BundleSidecar := transferBundle bob carol coin

/-- Bob's first bundle as a host would confirm it after Alice's. -/
def bobEntry : ChainStateV2.PeerEntry SymbolicDigest :=
  afterFirst.honestEntry (signedEnvelope bobBundle 1 Nat.one_pos [2]) bobBundle [2]

theorem bobEntry_valid : afterFirst.PeerEntryValid bobEntry where
  signer := rfl
  bundleHash := rfl
  claimSet := .inl rfl
  signature := by decide
  notExpired := by decide
  prevRef := rfl
  seq := by decide
  known := by rintro leaf ⟨⟩

/-- The three accounts have different tree keys. -/
theorem idealAddrKeys : IdealAddrKeys SymbolicDigest := by
  have accounts : ∀ addr, IsAccount SymbolicDigest addr →
      addr = alice ∨ addr = bob ∨ addr = carol := by
    rintro addr ⟨publicKey, derived⟩
    simp only [Crypto.addressFromPublicKeyPem] at derived
    split at derived <;> simp_all
  intro left left_account right right_account key_eq
  rcases accounts left left_account with rfl | rfl | rfl <;>
    rcases accounts right right_account with rfl | rfl | rfl <;>
    first | rfl | exact absurd key_eq (by decide)

end SymbolicDigest

end EZChain
