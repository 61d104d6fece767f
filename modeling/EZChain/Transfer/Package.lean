import EZChain.Crypto

/-!
# Canonical form of a transfer package

A package is named by the hash of its canonical form.  The text of a batch id is represented by
the two parts that it prints.
-/

namespace EZChain

variable {H : Type}

/-! ## Receipts -/

def HeaderLite.canonicalize (header : HeaderLite H) : Canon H :=
  .dict [("height", .int header.height), ("block_hash", .digest header.blockHash),
    ("state_root", .digest header.stateRoot)]

def SparseMerkleProof.canonicalize (proof : SparseMerkleProof H) : Canon H :=
  .dict [("siblings", .list (proof.siblings.map .digest)), ("existence", .bool proof.existence)]

def ReceiptProofRef.canonicalize (ref : ReceiptProofRef H) : Canon H :=
  .dict [("batch_id", .list [.int ref.batchId.height, .digest ref.batchId.blockHash]),
    ("key", .bytes ref.key.bytes)]

/-- The `proof_batch_ref` field. -/
def Receipt.proofBatchRef (receipt : Receipt H) : Option (ReceiptProofRef H) :=
  match receipt.proof with
  | .single _ => none
  | .batchRef ref => some ref

def Receipt.canonicalize (receipt : Receipt H) : Canon H :=
  .dict [("header_lite", receipt.headerLite.canonicalize), ("seq", .int receipt.seq),
    ("prev_ref", Canon.option BundleRef.canonicalize receipt.prevRef),
    ("claim_set_hash", Canon.option .digest receipt.claimSetHash),
    ("account_state_proof",
      Canon.option SparseMerkleProof.canonicalize receipt.accountStateProof),
    ("proof_batch_ref", Canon.option ReceiptProofRef.canonicalize receipt.proofBatchRef)]

def ConfirmedBundleUnit.canonicalize (unit : ConfirmedBundleUnit H) : Canon H :=
  .dict [("receipt", unit.receipt.canonicalize),
    ("bundle_sidecar", unit.bundleSidecar.canonicalize)]

/-! ## Witnesses -/

def Checkpoint.canonicalize (checkpoint : Checkpoint H) : Canon H :=
  .dict [("value_begin", .int checkpoint.valueBegin), ("value_end", .int checkpoint.valueEnd),
    ("owner_addr", .str checkpoint.ownerAddr.text),
    ("checkpoint_height", .int checkpoint.checkpointHeight),
    ("checkpoint_block_hash", .digest checkpoint.checkpointBlockHash),
    ("checkpoint_bundle_hash", .digest checkpoint.checkpointBundleHash)]

def GenesisAnchor.canonicalize (anchor : GenesisAnchor H) : Canon H :=
  .dict [("genesis_block_hash", .digest anchor.genesisBlockHash),
    ("first_owner_addr", .str anchor.firstOwnerAddr.text),
    ("value_begin", .int anchor.valueBegin), ("value_end", .int anchor.valueEnd)]

/-- The fields of a witness around its anchor. -/
def witnessFields (value : ValueRange) (currentOwnerAddr : Address)
    (confirmedBundleChain : List (ConfirmedBundleUnit H)) (anchor : Canon H) : Canon H :=
  .dict [("value", value.canonicalize), ("current_owner_addr", .str currentOwnerAddr.text),
    ("confirmed_bundle_chain",
      .list (confirmedBundleChain.map ConfirmedBundleUnit.canonicalize)),
    ("anchor", anchor)]

def WitnessV2.canonicalize : WitnessV2 H → Canon H
  | genesis value owner chain anchor => witnessFields value owner chain anchor.canonicalize
  | checkpoint value owner chain anchor =>
      witnessFields value owner chain (.dict [("checkpoint", anchor.canonicalize)])
  | prior value owner chain acquireTx priorWitness =>
      witnessFields value owner chain (.dict [("acquire_tx", acquireTx.canonicalize),
        ("prior_witness", priorWitness.canonicalize)])

def TransferPackage.canonicalize (package : TransferPackage H) : Canon H :=
  .dict [("target_tx", package.targetTx.canonicalize),
    ("target_value", package.targetValue.canonicalize),
    ("witness_v2", package.witnessV2.canonicalize)]

/-- `transfer_package_hash`. -/
def transferPackageHash [Crypto H] (package : TransferPackage H) : H :=
  Crypto.keccak256 [.tag "EZCHAIN_TRANSFER_PACKAGE_V2", .encoded package.canonicalize]

end EZChain
