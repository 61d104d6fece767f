import EZChain.Chain.ReceiptCache
import EZChain.Library.Checks

/-!
# Bundle pool

The pool holds at most one pending bundle of each sender.  A submission is checked against the
chain id, the signer, the expiry height, the hashes, the size limits and the sender's confirmed
sequence number; a pending bundle is replaced only by itself with a higher fee.
-/

namespace EZChain

open Checks

/-- `BundlePool`. -/
structure BundlePool (H : Type) where
  chainId : ℕ
  /-- The limit on the length of an encoded bundle. -/
  maxBundleBytes : ℕ
  /-- The limit on the transfers of a bundle. -/
  maxTxPerBundle : ℕ
  /-- The limit on the ranges of a transfer. -/
  maxValueEntriesPerTx : ℕ
  /-- The pending bundle of each sender. -/
  pendingBySender : OrderedDict Address (BundleSubmission H)

/-- Order of tree keys: bytes from left to right. -/
def keyLe (left right : Bytes32) : Prop := left.bytes ≤ right.bytes

instance : DecidableRel keyLe := fun left right =>
  inferInstanceAs (Decidable (left.bytes ≤ right.bytes))

instance : Std.Total keyLe := ⟨fun left right => List.le_total left.bytes right.bytes⟩

instance : IsTrans Bytes32 keyLe := ⟨fun _ _ _ => List.le_trans⟩

/-- `ordered[:limit]`; a negative limit counts from the end. -/
def sliceTo {α : Type} (items : List α) : Option ℤ → List α
  | none => items
  | some limit => items.take (if 0 ≤ limit then limit else items.length + limit).toNat

namespace BundlePool

variable {H : Type} [Crypto H] [DecidableEq H]

/-- `BundlePool(...)`. -/
def new (H : Type) (chainId maxBundleBytes maxTxPerBundle maxValueEntriesPerTx : ℕ) :
    BundlePool H := ⟨chainId, maxBundleBytes, maxTxPerBundle, maxValueEntriesPerTx, ∅⟩

/-- The checks of `submit` that look at the submission alone. -/
def checkSubmission (pool : BundlePool H) (submission : BundleSubmission H) (currentHeight : ℕ) :
    Except String Address := do
  let senderAddr ← Crypto.addressFromPublicKeyPem H submission.senderPublicKeyPem
  require (submission.envelope.chainId = pool.chainId) "chain_id mismatch"
  require (submission.sidecar.senderAddr = senderAddr) "sidecar sender does not match public key"
  require (currentHeight ≤ submission.envelope.expiryHeight) "bundle expired"
  require (computeBundleHash submission.sidecar = submission.envelope.bundleHash)
    "bundle hash mismatch"
  let computedClaimSetHash := claimRangeSetHash (claimRangeSetFromSidecar submission.sidecar)
  require (submission.envelope.claimSetHash = none ∨
    submission.envelope.claimSetHash = some computedClaimSetHash) "claim_set_hash mismatch"
  require (verifyBundleEnvelope submission.envelope submission.senderPublicKeyPem = true)
    "invalid bundle signature"
  require ((submission.sidecar.canonicalize : Canon H).encodedLength ≤ pool.maxBundleBytes)
    "bundle exceeds size limit"
  require (submission.sidecar.txList.length ≤ pool.maxTxPerBundle) "bundle exceeds tx count limit"
  require (∀ tx ∈ submission.sidecar.txList, tx.valueList.length ≤ pool.maxValueEntriesPerTx)
    "bundle exceeds tx value entry limit"
  pure senderAddr

/-- `submit`: the updated pool. -/
def submit (pool : BundlePool H) (submission : BundleSubmission H)
    (currentHeight confirmedSeq : ℕ) : Except String (BundlePool H) := do
  let senderAddr ← pool.checkSubmission submission currentHeight
  let existing := pool.pendingBySender.get? senderAddr
  require (submission.envelope.seq = confirmedSeq + 1 ∨
    existing.map (·.envelope.seq) = some submission.envelope.seq)
    "bundle seq is not currently executable"
  match existing with
  | none => pure { pool with pendingBySender := pool.pendingBySender.set senderAddr submission }
  | some existing => do
      require (existing.envelope.seq = submission.envelope.seq)
        "sender already has a different pending bundle"
      require (existing.envelope.bundleHash = submission.envelope.bundleHash)
        "sender already has a different pending bundle"
      if existing = submission then pure pool
      else do
        require (existing.envelope.fee < submission.envelope.fee) "replacement bundle fee too low"
        pure { pool with pendingBySender := pool.pendingBySender.set senderAddr submission }

/-- `snapshot`: pending bundles in the order of their tree keys. -/
def snapshot (pool : BundlePool H) (limit : Option ℤ) : List (BundleSubmission H) :=
  sliceTo (pool.pendingBySender.values.insertionSort fun left right =>
    keyLe (computeAddrKey H left.sidecar.senderAddr) (computeAddrKey H right.sidecar.senderAddr))
    limit

/-- `remove_finalized_bundle`: a pending bundle with a confirmed or older seq is dropped. -/
def removeFinalizedBundle (pool : BundlePool H) (senderAddr : Address) (seq : ℕ)
    (bundleHash : H) : BundlePool H :=
  match pool.pendingBySender.get? senderAddr with
  | none => pool
  | some existing =>
      if seq < existing.envelope.seq then pool
      else if existing.envelope.seq < seq ∨ existing.envelope.bundleHash = bundleHash ∨
          existing.envelope.seq = seq then
        { pool with pendingBySender := pool.pendingBySender.erase senderAddr }
      else pool

end BundlePool

end EZChain
