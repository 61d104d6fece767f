import EZChain.Chain.Confirmed
import EZChain.Chain.PeerBlock
import EZChain.Transfer.Acceptance

/-!
# Issued units

The receipt that a block issues passes the receipt checks of the validator when the entry stands
under the key of its account and its leaf is the one that the receipt describes.
-/

namespace EZChain

namespace V2TransferValidator

open ChainStateV2

variable {H : Type} [Crypto H] [DecidableEq H]

/-- The bundle of an entry with the receipt that the block issues for it. -/
def issuedUnit (state : ChainStateV2 H) (block : BlockV2 H) (entry : DiffEntry H)
    (sidecar : BundleSidecar) : ConfirmedBundleUnit H where
  receipt := state.appliedReceipt block (setLeaves state.tree block.diffPackage.diffEntries) entry
  bundleSidecar := sidecar

/-- Issued receipts of honest entries pass the receipt checks. -/
theorem receiptAccepted_issuedUnit {state : ChainStateV2 H} {block : BlockV2 H}
    {entry : DiffEntry H} {sidecar : BundleSidecar} {publicKey : Bytes}
    (accepted : state.BlockAccepted block)
    (member : (entry, sidecar, publicKey) ∈ diffItems block)
    (key_eq : computeAddrKey H sidecar.senderAddr = entry.addrKey)
    (leaf_eq : reconstructedLeaf (issuedUnit state block entry sidecar) = entry.newLeaf) :
    ReceiptAccepted (issuedUnit state block entry sidecar) := by
  have entry_accepted := accepted.entries _ member
  have entry_mem : entry ∈ block.diffPackage.diffEntries := (List.of_mem_zip member).1
  constructor
  · have claims := entry_accepted.claimSet
    rw [← entry_accepted.leafClaimSet] at claims
    exact claims
  · refine ⟨_, rfl, ?_⟩
    have stored := get_setLeaves state.tree accepted.keysNodup entry_mem
    have verified := SparseMerkleTree.verifyProof_prove
      (setLeaves state.tree block.diffPackage.diffEntries) entry.addrKey.treeKey stored
    rw [accepted.stateRoot] at verified
    rw [leaf_eq]
    simp only [issuedUnit, key_eq]
    exact verified

/-- The unit that a block with one entry issues. -/
def peerUnit (state : ChainStateV2 H) (timestamp : ℕ) (peer : PeerEntry H) :
    ConfirmedBundleUnit H :=
  issuedUnit state (state.peerBlock timestamp peer)
    (peer.diffEntry (state.peerBlockHash timestamp peer)) peer.sidecar

omit [DecidableEq H] in
theorem confirmedBy_peerUnit (state : ChainStateV2 H) (timestamp : ℕ) (peer : PeerEntry H) :
    state.ConfirmedBy (state.peerBlock timestamp peer) (peerUnit state timestamp peer) :=
  ⟨_, peer.publicKey, _, List.mem_cons_self, rfl⟩

/-- The receipt of an honest entry passes the receipt checks. -/
theorem receiptAccepted_peerUnit {state : ChainStateV2 H} {timestamp : ℕ}
    {envelope : BundleEnvelope H} {sidecar : BundleSidecar} {publicKey : Bytes}
    (valid : state.PeerEntryValid (state.honestEntry envelope sidecar publicKey)) :
    ReceiptAccepted (peerUnit state timestamp (state.honestEntry envelope sidecar publicKey)) := by
  refine receiptAccepted_issuedUnit (peerBlock_accepted timestamp valid)
    (List.mem_cons_self : (_, sidecar, publicKey) ∈ _) rfl ?_
  have bundle_eq : computeBundleHash sidecar = envelope.bundleHash := valid.bundleHash.symm
  simp only [reconstructedLeaf, confirmedRef, issuedUnit, PeerEntry.diffEntry, honestEntry,
    bundle_eq]
  rfl

end V2TransferValidator

end EZChain
