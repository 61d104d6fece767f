import EZChain.Encoding

/-!
# Dataclasses for JSON

The dataclasses that `serde` knows, with the names, declared types and defaults of their fields, and
the Python values that it handles.
-/

namespace EZChain.Serde

/-- The dataclasses of the registry, and the two that are loaded when they are first met. -/
inductive ClassName where
  | accountLeaf | blockHeaderV2 | blockV2 | bundleEnvelope | bundleRef | bundleSidecar
  | bundleSubmission | claimRangeSet | checkpoint | checkpointAnchor | confirmedBundleUnit
  | diffEntry | diffPackage | genesisAnchor | headerLite | consensusGenesisConfig
  | consensusValidator | localValueRecord | offChainTx | pacemakerState | pendingBundleContext
  | priorWitnessLink | proposal | qc | receipt | receiptProofBatch | receiptProofRef
  | receiptResponse | receiptSyncCursor | sparseMerkleMultiProof | sparseMerkleMultiProofNode
  | sparseMerkleProof | tc | timeoutVote | transferPackage | transferMailboxEvent
  | vrfProposerClaim | vote | chainSyncCursor | peerInfo | networkEnvelope | valueRange | witnessV2
  | blockSyncResult | consensusRuntimeSnapshot
  deriving DecidableEq

/-- The enumerations of `_ENUM_REGISTRY`. -/
inductive EnumClass where
  | localValueStatus | votePhase
  deriving DecidableEq

/-- Python values that `serde` handles. -/
inductive Datum where
  | none
  | bool (value : Bool)
  | int (value : ℤ)
  | str (value : String)
  | bytes (value : Bytes)
  | enumMember (enumClass : EnumClass) (value : String)
  | list (items : List Datum)
  | tuple (items : List Datum)
  /-- A dictionary; where only its equality matters, its entries stand in the order of the keys. -/
  | dict (entries : List (String × Datum))
  /-- An instance of a dataclass with its fields in the order of their declaration. -/
  | dataclass (className : ClassName) (fields : List (String × Datum))

/-- Declared types of fields. -/
inductive FieldType where
  | int
  | bool
  | str
  | bytes
  /-- `Literal[...]`. -/
  | literal (texts : List String)
  | enumeration (enumClass : EnumClass)
  | optional (type : FieldType)
  /-- A dataclass, or a union of dataclasses. -/
  | oneOf (classNames : List ClassName)
  | tuple (items : FieldType)
  /-- `dict[str, Any]`. -/
  | freeForm
  | object

/-- What a field gets when no value is passed for it. -/
inductive Default where
  | required
  | value (value : Datum)
  /-- `uuid.uuid4().hex`. -/
  | requestId
  /-- `int(time.time())`. -/
  | createdAt

/-- A field of a dataclass. -/
structure FieldDecl where
  name : String
  type : FieldType
  default : Default

/-- A field without a default. -/
def field (name : String) (type : FieldType) : FieldDecl := ⟨name, type, .required⟩

/-- A field with a constant default. -/
def defaulted (name : String) (type : FieldType) (value : Datum) : FieldDecl :=
  ⟨name, type, .value value⟩

/-- A field that may be absent and is by default. -/
def absentByDefault (name : String) (type : FieldType) : FieldDecl :=
  defaulted name (.optional type) .none

namespace EnumClass

def name : EnumClass → String
  | .localValueStatus => "LocalValueStatus"
  | .votePhase => "VotePhase"

/-- The values of the members. -/
def values : EnumClass → List String
  | .localValueStatus =>
      ["verified_spendable", "pending_bundle", "pending_confirmation", "receipt_pending",
        "receipt_missing", "locked_for_verification", "archived"]
  | .votePhase => ["prepare", "precommit", "commit"]

/-- `_ENUM_REGISTRY`. -/
def registry : List EnumClass := [.localValueStatus, .votePhase]

end EnumClass

namespace ClassName

def name : ClassName → String
  | .accountLeaf => "AccountLeaf"
  | .blockHeaderV2 => "BlockHeaderV2"
  | .blockV2 => "BlockV2"
  | .bundleEnvelope => "BundleEnvelope"
  | .bundleRef => "BundleRef"
  | .bundleSidecar => "BundleSidecar"
  | .bundleSubmission => "BundleSubmission"
  | .claimRangeSet => "ClaimRangeSet"
  | .checkpoint => "Checkpoint"
  | .checkpointAnchor => "CheckpointAnchor"
  | .confirmedBundleUnit => "ConfirmedBundleUnit"
  | .diffEntry => "DiffEntry"
  | .diffPackage => "DiffPackage"
  | .genesisAnchor => "GenesisAnchor"
  | .headerLite => "HeaderLite"
  | .consensusGenesisConfig => "ConsensusGenesisConfig"
  | .consensusValidator => "ConsensusValidator"
  | .localValueRecord => "LocalValueRecord"
  | .offChainTx => "OffChainTx"
  | .pacemakerState => "PacemakerState"
  | .pendingBundleContext => "PendingBundleContext"
  | .priorWitnessLink => "PriorWitnessLink"
  | .proposal => "Proposal"
  | .qc => "QC"
  | .receipt => "Receipt"
  | .receiptProofBatch => "ReceiptProofBatch"
  | .receiptProofRef => "ReceiptProofRef"
  | .receiptResponse => "ReceiptResponse"
  | .receiptSyncCursor => "ReceiptSyncCursor"
  | .sparseMerkleMultiProof => "SparseMerkleMultiProof"
  | .sparseMerkleMultiProofNode => "SparseMerkleMultiProofNode"
  | .sparseMerkleProof => "SparseMerkleProof"
  | .tc => "TC"
  | .timeoutVote => "TimeoutVote"
  | .transferPackage => "TransferPackage"
  | .transferMailboxEvent => "TransferMailboxEvent"
  | .vrfProposerClaim => "VRFProposerClaim"
  | .vote => "Vote"
  | .chainSyncCursor => "ChainSyncCursor"
  | .peerInfo => "PeerInfo"
  | .networkEnvelope => "NetworkEnvelope"
  | .valueRange => "ValueRange"
  | .witnessV2 => "WitnessV2"
  | .blockSyncResult => "BlockSyncResult"
  | .consensusRuntimeSnapshot => "ConsensusRuntimeSnapshot"

/-- `_DATACLASS_REGISTRY`. -/
def registry : List ClassName :=
  [.accountLeaf, .blockHeaderV2, .blockV2, .bundleEnvelope, .bundleRef, .bundleSidecar,
    .bundleSubmission, .claimRangeSet, .checkpoint, .checkpointAnchor, .confirmedBundleUnit,
    .diffEntry, .diffPackage, .genesisAnchor, .headerLite, .consensusGenesisConfig,
    .consensusValidator, .localValueRecord, .offChainTx, .pacemakerState, .pendingBundleContext,
    .priorWitnessLink, .proposal, .qc, .receipt, .receiptProofBatch, .receiptProofRef,
    .receiptResponse, .receiptSyncCursor, .sparseMerkleMultiProof, .sparseMerkleMultiProofNode,
    .sparseMerkleProof, .tc, .timeoutVote, .transferPackage, .transferMailboxEvent,
    .vrfProposerClaim, .vote, .chainSyncCursor, .peerInfo, .networkEnvelope, .valueRange,
    .witnessV2]

/-- `_LAZY_DATACLASS_LOADERS`. -/
def lazyLoaders : List ClassName := [.blockSyncResult, .consensusRuntimeSnapshot]

/-- The class of a name, loaded if need be. -/
def ofName? (name : String) : Option ClassName :=
  (registry ++ lazyLoaders).find? fun className => className.name = name

/-- The fields of a class in the order of their declaration. -/
def fields : ClassName → List FieldDecl
  | .accountLeaf =>
      [field "addr" .str, field "head_ref" (.optional (.oneOf [.bundleRef])),
        field "prev_ref" (.optional (.oneOf [.bundleRef])), absentByDefault "claim_set_hash" .bytes]
  | .blockHeaderV2 =>
      [field "version" .int, field "chain_id" .int, field "height" .int,
        field "prev_block_hash" .bytes, field "state_root" .bytes, field "diff_root" .bytes,
        field "timestamp" .int, defaulted "proposer_sig" .bytes (.bytes []),
        defaulted "consensus_extra" .bytes (.bytes [])]
  | .blockV2 =>
      [field "block_hash" .bytes, field "header" (.oneOf [.blockHeaderV2]),
        field "diff_package" (.oneOf [.diffPackage])]
  | .bundleEnvelope =>
      [field "version" .int, field "chain_id" .int, field "seq" .int, field "expiry_height" .int,
        field "fee" .int, field "anti_spam_nonce" .int, field "bundle_hash" .bytes,
        absentByDefault "claim_set_hash" .bytes, defaulted "sig" .bytes (.bytes [])]
  | .bundleRef =>
      [field "height" .int, field "block_hash" .bytes, field "bundle_hash" .bytes,
        field "seq" .int]
  | .bundleSidecar =>
      [field "sender_addr" .str, field "tx_list" (.tuple (.oneOf [.offChainTx])),
        defaulted "tx_count" .int (.int 0)]
  | .bundleSubmission =>
      [field "envelope" (.oneOf [.bundleEnvelope]), field "sidecar" (.oneOf [.bundleSidecar]),
        field "sender_public_key_pem" .bytes]
  | .claimRangeSet => [field "ranges" (.tuple (.oneOf [.valueRange]))]
  | .checkpoint =>
      [field "value_begin" .int, field "value_end" .int, field "owner_addr" .str,
        field "checkpoint_height" .int, field "checkpoint_block_hash" .bytes,
        field "checkpoint_bundle_hash" .bytes]
  | .checkpointAnchor => [field "checkpoint" (.oneOf [.checkpoint])]
  | .confirmedBundleUnit =>
      [field "receipt" (.oneOf [.receipt]), field "bundle_sidecar" (.oneOf [.bundleSidecar])]
  | .diffEntry =>
      [field "addr_key" .bytes, field "new_leaf" (.oneOf [.accountLeaf]),
        field "bundle_envelope" (.oneOf [.bundleEnvelope]), field "bundle_hash" .bytes]
  | .diffPackage =>
      [field "diff_entries" (.tuple (.oneOf [.diffEntry])),
        field "sidecars" (.tuple (.oneOf [.bundleSidecar])),
        defaulted "sender_public_keys" (.tuple .bytes) (.tuple [])]
  | .genesisAnchor =>
      [field "genesis_block_hash" .bytes, field "first_owner_addr" .str, field "value_begin" .int,
        field "value_end" .int]
  | .headerLite => [field "height" .int, field "block_hash" .bytes, field "state_root" .bytes]
  | .consensusGenesisConfig =>
      [field "chain_id" .int, field "epoch_id" .int,
        field "validators" (.tuple (.oneOf [.consensusValidator]))]
  | .consensusValidator =>
      [field "validator_id" .str, field "consensus_vote_pubkey" .bytes, field "vrf_pubkey" .bytes,
        defaulted "weight" .int (.int 1)]
  | .localValueRecord =>
      [field "record_id" .str, field "value" (.oneOf [.valueRange]), field "witness_v2" .object,
        field "local_status" (.enumeration .localValueStatus), field "acquisition_height" .int]
  | .offChainTx =>
      [field "sender_addr" .str, field "recipient_addr" .str,
        field "value_list" (.tuple (.oneOf [.valueRange])), field "tx_local_index" .int,
        field "tx_time" .int, defaulted "extra_data" .bytes (.bytes [])]
  | .pacemakerState =>
      [defaulted "current_round" .int (.int 1), defaulted "highest_qc_round" .int (.int 0),
        defaulted "locked_qc_round" .int (.int 0), defaulted "highest_tc_round" .int (.int 0),
        defaulted "last_decided_round" .int (.int 0),
        defaulted "consecutive_local_timeouts" .int (.int 0),
        defaulted "base_timeout_ms" .int (.int 1000), defaulted "max_timeout_ms" .int (.int 16000)]
  | .pendingBundleContext =>
      [field "sender_addr" .str, field "bundle_hash" .bytes, field "seq" .int,
        field "envelope" (.oneOf [.bundleEnvelope]), field "sidecar" (.oneOf [.bundleSidecar]),
        field "sender_public_key_pem" .bytes, field "pending_record_ids" (.tuple .str),
        field "outgoing_record_ids" (.tuple .str),
        field "outgoing_values" (.tuple (.oneOf [.valueRange])), field "created_at" .int]
  | .priorWitnessLink =>
      [field "acquire_tx" (.oneOf [.offChainTx]), field "prior_witness" (.oneOf [.witnessV2])]
  | .proposal =>
      [field "chain_id" .int, field "epoch_id" .int, field "height" .int, field "round" .int,
        field "proposer_id" .str, field "validator_set_hash" .bytes, field "block_hash" .bytes,
        absentByDefault "justify_qc_hash" .bytes]
  | .qc =>
      [field "chain_id" .int, field "epoch_id" .int, field "height" .int, field "round" .int,
        field "phase" (.enumeration .votePhase), field "validator_set_hash" .bytes,
        field "block_hash" .bytes, field "signers" (.tuple .str)]
  | .receipt =>
      [field "header_lite" (.oneOf [.headerLite]), field "seq" .int,
        field "prev_ref" (.optional (.oneOf [.bundleRef])), absentByDefault "claim_set_hash" .bytes,
        absentByDefault "account_state_proof" (.oneOf [.sparseMerkleProof]),
        absentByDefault "proof_batch_ref" (.oneOf [.receiptProofRef])]
  | .receiptProofBatch =>
      [field "batch_id" .str, field "state_root" .bytes,
        field "multi_proof" (.oneOf [.sparseMerkleMultiProof])]
  | .receiptProofRef => [field "batch_id" .str, field "key" .bytes]
  | .receiptResponse =>
      [field "status" .str, field "receipt" (.optional (.oneOf [.receipt])),
        absentByDefault "proof_batch" (.oneOf [.receiptProofBatch])]
  | .receiptSyncCursor => [field "sender_addr" .str, field "next_seq" .int]
  | .sparseMerkleMultiProof =>
      [field "depth" .int, field "keys" (.tuple .bytes),
        field "nodes" (.tuple (.oneOf [.sparseMerkleMultiProofNode]))]
  | .sparseMerkleMultiProofNode => [field "prefix_bits" .str, field "node_hash" .bytes]
  | .sparseMerkleProof => [field "siblings" (.tuple .bytes), field "existence" .bool]
  | .tc =>
      [field "chain_id" .int, field "epoch_id" .int, field "height" .int, field "round" .int,
        field "validator_set_hash" .bytes, field "signers" (.tuple .str),
        absentByDefault "high_qc_round" .int, absentByDefault "high_qc_hash" .bytes]
  | .timeoutVote =>
      [field "chain_id" .int, field "epoch_id" .int, field "height" .int, field "round" .int,
        field "voter_id" .str, field "validator_set_hash" .bytes,
        absentByDefault "high_qc_round" .int, absentByDefault "high_qc_hash" .bytes]
  | .transferPackage =>
      [field "target_tx" (.oneOf [.offChainTx]), field "target_value" (.oneOf [.valueRange]),
        field "witness_v2" (.oneOf [.witnessV2])]
  | .transferMailboxEvent =>
      [field "package_hash_hex" .str, field "sender_addr" .str, field "recipient_addr" .str,
        field "tx_hash_hex" .str, field "value_begin" .int, field "value_end" .int]
  | .vrfProposerClaim =>
      [field "chain_id" .int, field "epoch_id" .int, field "height" .int, field "round" .int,
        field "validator_id" .str, field "validator_set_hash" .bytes, field "vrf_output" .bytes,
        field "vrf_proof" .bytes]
  | .vote =>
      [field "chain_id" .int, field "epoch_id" .int, field "height" .int, field "round" .int,
        field "voter_id" .str, field "validator_set_hash" .bytes, field "block_hash" .bytes,
        field "phase" (.enumeration .votePhase)]
  | .chainSyncCursor => [field "height" .int, defaulted "block_hash_hex" .str (.str "")]
  | .peerInfo =>
      [field "node_id" .str, field "role" (.literal ["consensus", "account", "observer"]),
        field "endpoint" .str, defaulted "metadata" .freeForm (.dict [])]
  | .networkEnvelope =>
      [field "msg_type" .str, field "sender_id" .str, field "recipient_id" (.optional .str),
        field "payload" .freeForm, ⟨"request_id", .str, .requestId⟩,
        ⟨"created_at", .int, .createdAt⟩]
  | .valueRange => [field "begin" .int, field "end" .int]
  | .witnessV2 =>
      [field "value" (.oneOf [.valueRange]), field "current_owner_addr" .str,
        field "confirmed_bundle_chain" (.tuple (.oneOf [.confirmedBundleUnit])),
        field "anchor" (.oneOf [.genesisAnchor, .checkpointAnchor, .priorWitnessLink])]
  | .blockSyncResult =>
      [field "applied_heights" (.tuple .int), field "latest_height" .int,
        field "latest_block_hash_hex" .str]
  | .consensusRuntimeSnapshot =>
      [field "node_id" .str, field "consensus_mode" .str, field "chain_height" .int,
        field "chain_block_hash_hex" .str, field "current_round" (.optional .int),
        field "highest_qc_round" (.optional .int), field "highest_qc_phase" (.optional .str),
        field "locked_qc_round" (.optional .int), field "highest_tc_round" (.optional .int),
        field "last_decided_round" (.optional .int), field "pending_preview_count" .int]

/-- `_TUPLE_FIELDS`. -/
def tupleFields : ClassName → List String
  | .consensusGenesisConfig => ["validators"]
  | .offChainTx => ["value_list"]
  | .bundleSidecar => ["tx_list"]
  | .claimRangeSet => ["ranges"]
  | .diffPackage => ["diff_entries", "sidecars", "sender_public_keys"]
  | .pendingBundleContext => ["pending_record_ids", "outgoing_record_ids", "outgoing_values"]
  | .qc => ["signers"]
  | .sparseMerkleMultiProof => ["keys", "nodes"]
  | .sparseMerkleProof => ["siblings"]
  | .tc => ["signers"]
  | .witnessV2 => ["confirmed_bundle_chain"]
  | _ => []

end ClassName

end EZChain.Serde
