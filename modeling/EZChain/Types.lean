import EZChain.Values

/-!
# Ledger data

The records exchanged by wallets, hosts and the chain.  A 32-byte digest is a value of an abstract
type `H`; tree keys, which are also compared and read bit by bit, are byte strings.  Every
well-formedness check of a record's constructor is a field of the structure.
-/

namespace EZChain

/-- A byte string. -/
abbrev Bytes := List UInt8

/-- A byte string of length 32. -/
structure Bytes32 where
  /-- The bytes, most significant first. -/
  bytes : Bytes
  /-- The string has 32 bytes. -/
  length_eq : bytes.length = 32
  deriving DecidableEq

/-- A nonempty account address. -/
structure Address where
  /-- The address text. -/
  text : String
  /-- The text is set. -/
  nonempty : text ≠ ""
  deriving DecidableEq

/-- Position of a confirmed bundle in the chain. -/
structure BundleRef (H : Type) where
  /-- Height of the confirming block. -/
  height : ℕ
  /-- Hash of the confirming block. -/
  blockHash : H
  /-- Hash of the confirmed bundle. -/
  bundleHash : H
  /-- The sender's sequence number of the bundle. -/
  seq : ℕ
  /-- Sequence numbers start at 1. -/
  seq_pos : 0 < seq
  deriving DecidableEq

/-- A transfer of some value ranges from one account to another. -/
structure OffChainTx where
  senderAddr : Address
  recipientAddr : Address
  valueList : List ValueRange
  txLocalIndex : ℕ
  txTime : ℤ
  extraData : Bytes
  /-- At least one range is moved. -/
  valueList_ne_nil : valueList ≠ []
  /-- The ranges are sorted and do not overlap. -/
  valueList_sorted : valueList.Pairwise fun left right => left.valueEnd < right.valueBegin
  deriving DecidableEq

/-- The signed part of a bundle. -/
structure BundleEnvelope (H : Type) where
  /-- Version of the protocol. -/
  version : ℕ
  /-- The chain that the bundle is signed for. -/
  chainId : ℕ
  /-- The sender's sequence number. -/
  seq : ℕ
  /-- The last height at which the bundle may be packed. -/
  expiryHeight : ℕ
  fee : ℕ
  antiSpamNonce : ℕ
  /-- Hash of the sidecar. -/
  bundleHash : H
  /-- Hash of the claimed ranges, if it is stated. -/
  claimSetHash : Option H
  /-- The sender's signature of the envelope. -/
  sig : Bytes
  /-- Sequence numbers start at 1. -/
  seq_pos : 0 < seq
  deriving DecidableEq

/-- The body of a bundle: all transfers of one sender. -/
structure BundleSidecar where
  /-- The sender of all transfers. -/
  senderAddr : Address
  /-- The transfers of the bundle. -/
  txList : List OffChainTx
  /-- Every transfer is sent by the bundle's sender. -/
  sender_eq : ∀ tx ∈ txList, tx.senderAddr = senderAddr
  deriving DecidableEq

/-- A bundle as submitted to a consensus host. -/
structure BundleSubmission (H : Type) where
  envelope : BundleEnvelope H
  sidecar : BundleSidecar
  senderPublicKeyPem : Bytes
  deriving DecidableEq

/-- The committed state of one account. -/
structure AccountLeaf (H : Type) where
  /-- The account. -/
  addr : Address
  /-- The latest confirmed bundle of the account. -/
  headRef : Option (BundleRef H)
  /-- The confirmed bundle before it. -/
  prevRef : Option (BundleRef H)
  /-- Hash of the ranges that the latest bundle claims. -/
  claimSetHash : Option H
  deriving DecidableEq

/-- One account update of a block. -/
structure DiffEntry (H : Type) where
  /-- The tree key under which the leaf is written. -/
  addrKey : Bytes32
  /-- The account's leaf after the block. -/
  newLeaf : AccountLeaf H
  /-- The envelope of the packed bundle. -/
  bundleEnvelope : BundleEnvelope H
  /-- Hash of the packed bundle. -/
  bundleHash : H
  deriving DecidableEq

theorem DiffEntry.seq_pos {H : Type} (entry : DiffEntry H) : 0 < entry.bundleEnvelope.seq :=
  entry.bundleEnvelope.seq_pos

/-- Path of sibling digests for one key. -/
structure SparseMerkleProof (H : Type) where
  /-- Sibling digests from the leaf upwards. -/
  siblings : List H
  /-- The key is claimed to be present. -/
  existence : Bool
  deriving DecidableEq

/-- A set of value ranges in normal form. -/
structure ClaimRangeSet where
  ranges : List ValueRange
  /-- The ranges are sorted, disjoint and not adjacent. -/
  normalized : ranges.Pairwise fun left right => left.valueEnd + 1 < right.valueBegin
  deriving DecidableEq

/-- One tree node of a multiproof; the prefix lists the bits from the root down. -/
structure SparseMerkleMultiProofNode (H : Type) where
  prefixBits : List Bool
  nodeHash : H
  deriving DecidableEq

/-- Sibling nodes shared by the proofs of several keys. -/
structure SparseMerkleMultiProof (H : Type) where
  /-- Height of the tree. -/
  depth : ℕ
  /-- The proven keys. -/
  keys : List Bytes
  /-- The digests that the proven paths do not determine. -/
  nodes : List (SparseMerkleMultiProofNode H)
  deriving DecidableEq

/-- Name of a proof batch, printed by the source as the height and the block hash. -/
structure BatchId (H : Type) where
  height : ℕ
  blockHash : H
  deriving DecidableEq

/-- The proofs of all receipts of one block. -/
structure ReceiptProofBatch (H : Type) where
  /-- The block whose receipts are proven. -/
  batchId : BatchId H
  /-- Root of the state tree after the block. -/
  stateRoot : H
  /-- One proof for all senders of the block. -/
  multiProof : SparseMerkleMultiProof H
  deriving DecidableEq

/-- Reference to one key of a proof batch. -/
structure ReceiptProofRef (H : Type) where
  batchId : BatchId H
  key : Bytes32
  deriving DecidableEq

/-- The part of a block header that a receipt repeats. -/
structure HeaderLite (H : Type) where
  height : ℕ
  blockHash : H
  stateRoot : H
  deriving DecidableEq

/-- A receipt carries exactly one of the two proof forms. -/
inductive ReceiptProof (H : Type) where
  /-- `account_state_proof`. -/
  | single (proof : SparseMerkleProof H)
  /-- `proof_batch_ref`. -/
  | batchRef (ref : ReceiptProofRef H)
  deriving DecidableEq

/-- Confirmation of one bundle. -/
structure Receipt (H : Type) where
  /-- The confirming block. -/
  headerLite : HeaderLite H
  /-- Sequence number of the confirmed bundle. -/
  seq : ℕ
  /-- The sender's confirmed bundle before it. -/
  prevRef : Option (BundleRef H)
  /-- Hash of the ranges that the bundle claims. -/
  claimSetHash : Option H
  /-- The proof of the sender's leaf. -/
  proof : ReceiptProof H
  /-- Sequence numbers start at 1. -/
  seq_pos : 0 < seq
  deriving DecidableEq

/-- The `account_state_proof` field. -/
def Receipt.accountStateProof {H : Type} (receipt : Receipt H) : Option (SparseMerkleProof H) :=
  match receipt.proof with
  | .single proof => some proof
  | .batchRef _ => none

/-- A bundle body with its receipt. -/
structure ConfirmedBundleUnit (H : Type) where
  /-- The receipt of the bundle. -/
  receipt : Receipt H
  /-- The bundle. -/
  bundleSidecar : BundleSidecar
  deriving DecidableEq

/-- A verified position of a value in the chain. -/
structure Checkpoint (H : Type) where
  /-- Start of the value. -/
  valueBegin : ℕ
  /-- End of the value. -/
  valueEnd : ℕ
  /-- The owner at the checkpoint. -/
  ownerAddr : Address
  /-- Height of the owner's bundle at the checkpoint. -/
  checkpointHeight : ℕ
  /-- The block that confirmed it. -/
  checkpointBlockHash : H
  /-- The hash of that bundle. -/
  checkpointBundleHash : H
  /-- The value is not empty. -/
  begin_le_end : valueBegin ≤ valueEnd
  deriving DecidableEq

/-- The checkpoint is about the given value and owner. -/
def Checkpoint.matches {H : Type} (checkpoint : Checkpoint H) (value : ValueRange)
    (ownerAddr : Address) : Bool :=
  checkpoint.ownerAddr = ownerAddr && checkpoint.valueBegin = value.valueBegin &&
    checkpoint.valueEnd = value.valueEnd

/-- Assertion that a value was allocated at genesis. -/
structure GenesisAnchor (H : Type) where
  genesisBlockHash : H
  /-- The account that the value was allocated to. -/
  firstOwnerAddr : Address
  /-- Start of the allocated value. -/
  valueBegin : ℤ
  /-- End of the allocated value. -/
  valueEnd : ℤ
  /-- The value is not empty. -/
  begin_le_end : valueBegin ≤ valueEnd
  deriving DecidableEq

/-- Ownership history of a value: the bundles of the current owner, newest first, and either an
anchor or the transfer and the history by which the owner acquired the value. -/
inductive WitnessV2 (H : Type) where
  | genesis (value : ValueRange) (currentOwnerAddr : Address)
      (confirmedBundleChain : List (ConfirmedBundleUnit H)) (anchor : GenesisAnchor H)
  | checkpoint (value : ValueRange) (currentOwnerAddr : Address)
      (confirmedBundleChain : List (ConfirmedBundleUnit H)) (checkpoint : Checkpoint H)
  | prior (value : ValueRange) (currentOwnerAddr : Address)
      (confirmedBundleChain : List (ConfirmedBundleUnit H)) (acquireTx : OffChainTx)
      (priorWitness : WitnessV2 H)
  deriving DecidableEq

namespace WitnessV2

variable {H : Type}

/-- The value the witness is about. -/
def value : WitnessV2 H → ValueRange
  | genesis value _ _ _ | checkpoint value _ _ _ | prior value _ _ _ _ => value

/-- The owner whose bundles the witness lists. -/
def currentOwnerAddr : WitnessV2 H → Address
  | genesis _ owner _ _ | checkpoint _ owner _ _ | prior _ owner _ _ _ => owner

/-- The owner's confirmed bundles, newest first. -/
def confirmedBundleChain : WitnessV2 H → List (ConfirmedBundleUnit H)
  | genesis _ _ chain _ | checkpoint _ _ chain _ | prior _ _ chain _ _ => chain

/-- Confirmed bundles of the owner and of all prior owners. -/
def allUnits : WitnessV2 H → List (ConfirmedBundleUnit H)
  | genesis _ _ chain _ | checkpoint _ _ chain _ => chain
  | prior _ _ chain _ priorWitness => chain ++ priorWitness.allUnits

end WitnessV2

/-- A transfer handed to its recipient. -/
structure TransferPackage (H : Type) where
  /-- The transfer that is handed over. -/
  targetTx : OffChainTx
  /-- The range that is handed over. -/
  targetValue : ValueRange
  /-- The history of the range. -/
  witnessV2 : WitnessV2 H
  deriving DecidableEq

/-- Header of a block. -/
structure BlockHeaderV2 (H : Type) where
  version : ℕ
  chainId : ℕ
  /-- Height of the block, from 1 on. -/
  height : ℕ
  /-- Hash of the block before. -/
  prevBlockHash : H
  /-- Root of the state tree after the block. -/
  stateRoot : H
  /-- Root of the diff entries. -/
  diffRoot : H
  timestamp : ℕ
  proposerSig : Bytes
  consensusExtra : Bytes
  deriving DecidableEq

/-- Account updates of a block with their bundle bodies and signers' keys. -/
structure DiffPackage (H : Type) where
  /-- One entry for each packed bundle, in the order of the tree keys. -/
  diffEntries : List (DiffEntry H)
  /-- The packed bundles. -/
  sidecars : List BundleSidecar
  /-- The senders' keys, or none at all. -/
  senderPublicKeys : List Bytes
  /-- There is one sidecar for each entry. -/
  sidecars_length : diffEntries.length = sidecars.length
  /-- There is one key for each entry if there are keys. -/
  keys_length : senderPublicKeys ≠ [] → senderPublicKeys.length = diffEntries.length
  deriving DecidableEq

/-- A block. -/
structure BlockV2 (H : Type) where
  blockHash : H
  header : BlockHeaderV2 H
  diffPackage : DiffPackage H
  deriving DecidableEq

end EZChain
