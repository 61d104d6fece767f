import Mathlib.Algebra.GroupWithZero.Nat
import Mathlib.Data.String.Basic
import EZChain.Crypto

/-!
# Consensus records

Proposals, votes and certificates of the consensus core.  A record's constructor checks are fields
of the structure, and its hash is taken over the canonical form of the record.
-/

namespace EZChain

/-- A member of the validator set. -/
structure ConsensusValidator where
  validatorId : String
  consensusVotePubkey : Bytes
  vrfPubkey : Bytes
  weight : ℕ
  validatorId_ne : validatorId ≠ ""
  consensusVotePubkey_ne : consensusVotePubkey ≠ []
  vrfPubkey_ne : vrfPubkey ≠ []
  weight_pos : 0 < weight

/-- The three voting phases of a round. -/
inductive VotePhase where
  | prepare
  | precommit
  | commit
  deriving DecidableEq, Repr

namespace VotePhase

/-- The text of a phase. -/
def value : VotePhase → String
  | prepare => "prepare"
  | precommit => "precommit"
  | commit => "commit"

/-- `_PHASE_RANK`. -/
def rank : VotePhase → ℕ
  | prepare => 1
  | precommit => 2
  | commit => 3

/-- Number of phases of the round that come before. -/
def stage (phase : VotePhase) : ℕ := phase.rank - 1

/-- The phase whose certificate opens a phase. -/
def previous : VotePhase → Option VotePhase
  | prepare => none
  | precommit => some prepare
  | commit => some precommit

theorem value_injective : Function.Injective value := by
  intro left right equality
  cases left <;> cases right <;> simp_all [value]

theorem stage_injective : Function.Injective stage := by
  intro left right equality
  cases left <;> cases right <;> simp_all [stage, rank]

theorem exists_previous {phase : VotePhase} {stage : ℕ} (next : phase.stage = stage + 1) :
    ∃ before, phase.previous = some before ∧ before.stage = stage := by
  cases phase with
  | prepare => simp [VotePhase.stage, rank] at next
  | precommit => exact ⟨prepare, rfl, Nat.succ.inj next⟩
  | commit => exact ⟨precommit, rfl, Nat.succ.inj next⟩

end VotePhase

/-- A block proposed for a round. -/
structure Proposal (H : Type) where
  chainId : ℕ
  epochId : ℕ
  height : ℕ
  round : ℕ
  /-- The leader of the round. -/
  proposerId : String
  validatorSetHash : H
  /-- The proposed block. -/
  blockHash : H
  /-- Hash of the certificate that justifies the proposal. -/
  justifyQcHash : Option H
  height_pos : 0 < height
  round_pos : 0 < round
  proposerId_ne : proposerId ≠ ""

/-- A vote of one validator in one phase of a round. -/
structure Vote (H : Type) where
  chainId : ℕ
  epochId : ℕ
  height : ℕ
  round : ℕ
  voterId : String
  validatorSetHash : H
  blockHash : H
  phase : VotePhase
  height_pos : 0 < height
  round_pos : 0 < round
  voterId_ne : voterId ≠ ""

/-- A validator's vote to leave a round. -/
structure TimeoutVote (H : Type) where
  chainId : ℕ
  epochId : ℕ
  height : ℕ
  round : ℕ
  voterId : String
  validatorSetHash : H
  /-- Round of the highest certificate that the voter knows. -/
  highQcRound : Option ℕ
  /-- Hash of that certificate. -/
  highQcHash : Option H
  height_pos : 0 < height
  round_pos : 0 < round
  voterId_ne : voterId ≠ ""

/-- The signers of a certificate: a nonempty sorted list without duplicates. -/
structure Signers where
  /-- The ids of the signers. -/
  ids : List String
  /-- Somebody has signed. -/
  nonempty : ids ≠ []
  /-- The ids are in order. -/
  sorted : ids.Pairwise (· ≤ ·)
  /-- No id occurs twice. -/
  nodup : ids.Nodup
  deriving DecidableEq

/-- A quorum certificate for a block in one phase of a round. -/
@[ext]
structure QC (H : Type) where
  chainId : ℕ
  epochId : ℕ
  height : ℕ
  round : ℕ
  phase : VotePhase
  validatorSetHash : H
  blockHash : H
  signers : Signers
  height_pos : 0 < height
  round_pos : 0 < round

instance {H : Type} [DecidableEq H] : DecidableEq (QC H) := fun _ _ =>
  decidable_of_iff _ QC.ext_iff.symm

/-- A timeout certificate for a round. -/
structure TC (H : Type) where
  chainId : ℕ
  epochId : ℕ
  height : ℕ
  round : ℕ
  validatorSetHash : H
  /-- The members that timed out. -/
  signers : Signers
  /-- Round of the highest certificate that they reported. -/
  highQcRound : Option ℕ
  /-- Hash of that certificate. -/
  highQcHash : Option H
  height_pos : 0 < height
  round_pos : 0 < round

/-! ## Canonical forms and hashes -/

section Hashing

variable {H : Type}

def ConsensusValidator.canonicalize (validator : ConsensusValidator) : Canon H :=
  .dict [("validator_id", .str validator.validatorId),
    ("consensus_vote_pubkey", .bytes validator.consensusVotePubkey),
    ("vrf_pubkey", .bytes validator.vrfPubkey), ("weight", .int validator.weight)]

def Proposal.signingPayload (proposal : Proposal H) : Canon H :=
  .dict [("chain_id", .int proposal.chainId), ("epoch_id", .int proposal.epochId),
    ("height", .int proposal.height), ("round", .int proposal.round),
    ("proposer_id", .str proposal.proposerId),
    ("validator_set_hash", .digest proposal.validatorSetHash),
    ("block_hash", .digest proposal.blockHash),
    ("justify_qc_hash", Canon.option .digest proposal.justifyQcHash)]

/-- Canonical list of signer ids. -/
def Signers.canonicalize (signers : Signers) : Canon H := .list (signers.ids.map .str)

def QC.canonicalize (qc : QC H) : Canon H :=
  .dict [("chain_id", .int qc.chainId), ("epoch_id", .int qc.epochId),
    ("height", .int qc.height), ("round", .int qc.round), ("phase", .str qc.phase.value),
    ("validator_set_hash", .digest qc.validatorSetHash), ("block_hash", .digest qc.blockHash),
    ("signers", qc.signers.canonicalize)]

def TC.canonicalize (tc : TC H) : Canon H :=
  .dict [("chain_id", .int tc.chainId), ("epoch_id", .int tc.epochId),
    ("height", .int tc.height), ("round", .int tc.round),
    ("validator_set_hash", .digest tc.validatorSetHash),
    ("signers", tc.signers.canonicalize),
    ("high_qc_round", Canon.option (fun round : ℕ => .int round) tc.highQcRound),
    ("high_qc_hash", Canon.option .digest tc.highQcHash)]

variable [Crypto H]

/-- `_hash_with_domain`. -/
def hashWithDomain (domain : String) (payload : Canon H) : H :=
  Crypto.sha256 [.tag domain, .encoded payload]

def proposalHash (proposal : Proposal H) : H :=
  hashWithDomain "EZCHAIN_V2_PROPOSAL" proposal.signingPayload

def qcHash (qc : QC H) : H := hashWithDomain "EZCHAIN_V2_QC" qc.canonicalize

def tcHash (tc : TC H) : H := hashWithDomain "EZCHAIN_V2_TC" tc.canonicalize

end Hashing

end EZChain
