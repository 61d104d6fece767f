import EZChain.ClaimSet

/-!
# Ledger hashes

Account keys, bundle hashes, leaf hashes, the diff root and the block hash, with the facts that
an ideal hash function gives about them.
-/

namespace EZChain

section Definitions

variable {H : Type} [Crypto H]

/-- `EMPTY_DIFF_ROOT`. -/
def emptyDiffRoot : H := Crypto.keccak256 [.tag "EZCHAIN_EMPTY_DIFF_ROOT_V2"]

/-- `MERKLE_EMPTY`. -/
def merkleEmpty : H := Crypto.keccak256 [.tag "EZCHAIN_EMPTY_MERKLE_V2"]

/-- One level of the Merkle reduction; a digest without a partner is paired with itself. -/
def merkleLevel (domain : String) : List H → List H
  | [] => []
  | [last] => [Crypto.keccak256 [.tag domain, .digest last, .digest last]]
  | left :: right :: rest =>
      Crypto.keccak256 [.tag domain, .digest left, .digest right] :: merkleLevel domain rest

theorem length_merkleLevel (domain : String) (level : List H) :
    (merkleLevel domain level).length = (level.length + 1) / 2 := by
  induction level using merkleLevel.induct with
  | case1 => simp [merkleLevel]
  | case2 => simp [merkleLevel]
  | case3 left right rest induction =>
      simp only [merkleLevel, List.length_cons, induction]
      omega

/-- The reduction loop: halve the level until one digest is left. -/
def merkleReduce (domain : String) (level : List H) : H :=
  match level with
  | [] => merkleEmpty
  | [root] => root
  | left :: right :: rest => merkleReduce domain (merkleLevel domain (left :: right :: rest))
termination_by level.length
decreasing_by
  simp only [length_merkleLevel, List.length_cons]
  omega

/-- `merkle_root`. -/
def merkleRoot (leafHashes : List H) (domain : String) : H := merkleReduce domain leafHashes

/-- `compute_addr_key`: the tree key of an account. -/
def computeAddrKey (H : Type) [Crypto H] (addr : Address) : Bytes32 :=
  Crypto.digestBytes
    (Crypto.keccak256 [.tag "EZCHAIN_ADDR_KEY_V2", .text addr.text] : H)

/-- `compute_bundle_hash`. -/
def computeBundleHash (sidecar : BundleSidecar) : H :=
  Crypto.keccak256 [.tag "EZCHAIN_BUNDLE_BODY_V2", .encoded sidecar.canonicalize]

/-- `compute_bundle_sighash`. -/
def computeBundleSighash (envelope : BundleEnvelope H) : H :=
  Crypto.keccak256 [.tag "EZCHAIN_BUNDLE_V2", .encoded envelope.signingPayload]

/-- `verify_bundle_envelope`. -/
def verifyBundleEnvelope (envelope : BundleEnvelope H) (publicKeyPem : Bytes) : Bool :=
  if envelope.sig = [] then false
  else Crypto.verifyDigestSecp256k1 publicKeyPem (computeBundleSighash envelope) envelope.sig

/-- `hash_account_leaf`. -/
def hashAccountLeaf (leaf : AccountLeaf H) : H :=
  Crypto.keccak256 [.tag "EZCHAIN_ACCOUNT_LEAF_V2", .encoded leaf.payload]

/-- `compute_diff_leaf_hash`. -/
def computeDiffLeafHash (entry : DiffEntry H) : H :=
  Crypto.keccak256 [.tag "EZCHAIN_DIFF_LEAF_V2", .encoded (.dict [
    ("addr_key", .bytes entry.addrKey.bytes),
    ("new_leaf_hash", .digest (Crypto.keccak256 [.encoded entry.newLeaf.canonicalize])),
    ("bundle_envelope_hash",
      .digest (Crypto.keccak256 [.encoded entry.bundleEnvelope.canonicalize])),
    ("bundle_hash", .digest entry.bundleHash)])]

/-- `compute_diff_root`. -/
def computeDiffRoot (entries : List (DiffEntry H)) : H :=
  match entries with
  | [] => emptyDiffRoot
  | _ :: _ => merkleRoot (entries.map computeDiffLeafHash) "EZCHAIN_DIFF_NODE_V2"

/-- `derive_block_hash`. -/
def deriveBlockHash (version chainId height : ℕ) (prevBlockHash : H) (timestamp : ℕ)
    (proposerSig consensusExtra : Bytes) (orderedEntries : List (DiffEntry H)) : H :=
  Crypto.keccak256 [.tag "EZCHAIN_BLOCK_ID_V2", .encoded (.dict [
    ("version", .int version), ("chain_id", .int chainId), ("height", .int height),
    ("prev_block_hash", .digest prevBlockHash), ("timestamp", .int timestamp),
    ("proposer_sig", .bytes proposerSig), ("consensus_extra", .bytes consensusExtra),
    ("addr_keys", .list (orderedEntries.map fun entry => .bytes entry.addrKey.bytes)),
    ("bundle_hashes", .list (orderedEntries.map fun entry => .digest entry.bundleHash))])]

/-- `confirmed_ref`: the position that a confirmed unit claims. -/
def confirmedRef (unit : ConfirmedBundleUnit H) : BundleRef H where
  height := unit.receipt.headerLite.height
  blockHash := unit.receipt.headerLite.blockHash
  bundleHash := computeBundleHash unit.bundleSidecar
  seq := unit.receipt.seq
  seq_pos := unit.receipt.seq_pos

/-- `reconstructed_leaf`: the account leaf that a confirmed unit claims. -/
def reconstructedLeaf (unit : ConfirmedBundleUnit H) : AccountLeaf H where
  addr := unit.bundleSidecar.senderAddr
  headRef := some (confirmedRef unit)
  prevRef := unit.receipt.prevRef
  claimSetHash := unit.receipt.claimSetHash

/-- The address of some public key. -/
def IsAccount (H : Type) [Crypto H] (addr : Address) : Prop :=
  ∃ publicKey, Crypto.addressFromPublicKeyPem H publicKey = .ok addr

/-- Distinct accounts have distinct tree keys. -/
def IdealAddrKeys (H : Type) [Crypto H] : Prop :=
  Set.InjOn (computeAddrKey H) {addr | IsAccount H addr}

end Definitions

/-! ## Hashes determine what was hashed -/

section Injectivity

variable {H : Type} [Crypto H]

theorem computeBundleHash_injective (ideal : IdealHash H) :
    Function.Injective (computeBundleHash (H := H)) := by
  intro left right equality
  have chunks_eq := ideal equality
  simp only [List.cons.injEq, Chunk.encoded.injEq, true_and, and_true] at chunks_eq
  exact BundleSidecar.canonicalize_injective chunks_eq

theorem hashAccountLeaf_injective (ideal : IdealHash H) :
    Function.Injective (hashAccountLeaf (H := H)) := by
  intro left right equality
  have chunks_eq := ideal equality
  simp only [List.cons.injEq, Chunk.encoded.injEq, true_and, and_true] at chunks_eq
  exact AccountLeaf.payload_injective chunks_eq

/-- What a block hash commits to. -/
theorem deriveBlockHash_injective (ideal : IdealHash H)
    {version chainId height version' chainId' height' : ℕ} {prevBlockHash prevBlockHash' : H}
    {timestamp timestamp' : ℕ} {proposerSig consensusExtra proposerSig' consensusExtra' : Bytes}
    {entries entries' : List (DiffEntry H)}
    (equality : deriveBlockHash version chainId height prevBlockHash timestamp proposerSig
        consensusExtra entries =
      deriveBlockHash version' chainId' height' prevBlockHash' timestamp' proposerSig'
        consensusExtra' entries') :
    height = height' ∧ prevBlockHash = prevBlockHash' ∧ timestamp = timestamp' ∧
      proposerSig = proposerSig' ∧ consensusExtra = consensusExtra' ∧
      entries.map DiffEntry.addrKey = entries'.map DiffEntry.addrKey ∧
      entries.map DiffEntry.bundleHash = entries'.map DiffEntry.bundleHash := by
  have chunks_eq := ideal equality
  simp only [List.cons.injEq, Chunk.encoded.injEq, Canon.dict.injEq, Prod.mk.injEq,
    Canon.int.injEq, Canon.digest.injEq, Canon.bytes.injEq, Canon.list.injEq, true_and, and_true,
    Int.natCast_inj] at chunks_eq
  obtain ⟨_, _, height_eq, prev_eq, timestamp_eq, sig_eq, extra_eq, keys_eq, hashes_eq⟩ := chunks_eq
  have key_injective : Function.Injective fun key : Bytes32 =>
    (Canon.bytes key.bytes : Canon H) := by
    intro left right bytes_eq
    cases left
    cases right
    simpa using bytes_eq
  have hash_injective : Function.Injective (Canon.digest : H → Canon H) :=
    fun _ _ => Canon.digest.inj
  refine ⟨height_eq, prev_eq, timestamp_eq, sig_eq, extra_eq, ?_, ?_⟩
  · apply key_injective.list_map
    simpa only [List.map_map, Function.comp_def] using keys_eq
  · apply hash_injective.list_map
    simpa only [List.map_map, Function.comp_def] using hashes_eq

end Injectivity

end EZChain
