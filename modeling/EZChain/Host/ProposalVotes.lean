import EZChain.Consensus.LockRule
import EZChain.Host.Certified

/-!
# Votes on proposed blocks

A host votes on a proposed block after it has compared the block's hash with the proposal and its
chain id with the own one.  It neither applies the block nor compares the heights, so a vote says
nothing about the other rules of `apply_block`.
-/

namespace EZChain

open Checks

namespace ConsensusHost

variable {H : Type} [Crypto H] [DecidableEq H]

/-- When the message is answered with a vote, the block can be applied to the chain of the host and
has the height of the proposal. -/
def VotesApplicable (host : ConsensusHost H) (proposal : Proposal H) (block : BlockV2 H)
    (phase : VotePhase) (justifyQc : Option (QC H)) : Prop :=
  ∀ vote, (host.onConsensusProposal proposal block phase justifyQc).1 = .voted vote →
    (∃ receipts next, host.consensus.chain.applyBlock block = (.ok receipts, next)) ∧
      proposal.height = block.header.height

/-- What is checked before a vote: the block's hash, its chain id, and the proposal itself. -/
structure PassesVoteChecks (host : ConsensusHost H) (proposal : Proposal H) (block : BlockV2 H)
    (phase : VotePhase) (justifyQc : Option (QC H)) : Prop where
  blockHash : block.blockHash = proposal.blockHash
  chainId : block.header.chainId = host.consensus.chain.chainId
  granted : host.core.Grants proposal justifyQc phase

/-- What nothing checks before a vote: the two heights and the other rules of `apply_block`. -/
structure ObeysOtherRules (host : ConsensusHost H) (proposal : Proposal H) (block : BlockV2 H) :
    Prop where
  height : proposal.height = host.consensus.chain.currentHeight + 1
  blockHeight : block.header.height = proposal.height
  version : block.header.version = host.consensus.chain.version
  prevBlockHash : block.header.prevBlockHash = host.consensus.chain.currentBlockHash
  sorted : block.diffPackage.diffEntries = ChainStateV2.sortEntries block.diffPackage.diffEntries
  keysNodup : (block.diffPackage.diffEntries.map DiffEntry.addrKey).Nodup
  keysLength : block.diffPackage.diffEntries.length = block.diffPackage.senderPublicKeys.length
  derivedHash : deriveBlockHash block.header.version block.header.chainId block.header.height
    block.header.prevBlockHash block.header.timestamp block.header.proposerSig
    block.header.consensusExtra block.diffPackage.diffEntries = block.blockHash
  entries : ∀ item ∈ ChainStateV2.diffItems block,
    host.consensus.chain.EntryAccepted block item.1 item.2.1 item.2.2
  sendersNodup : (block.diffPackage.diffEntries.map fun entry => entry.newLeaf.addr).Nodup
  diffRoot : computeDiffRoot block.diffPackage.diffEntries = block.header.diffRoot
  stateRoot : (ChainStateV2.setLeaves host.consensus.chain.tree
    block.diffPackage.diffEntries).root = block.header.stateRoot

/-- A vote is the answer exactly when the checks before it pass. -/
theorem voted_iff (host : ConsensusHost H) (proposal : Proposal H) (block : BlockV2 H)
    (phase : VotePhase) (justifyQc : Option (QC H)) :
    (∃ vote, (host.onConsensusProposal proposal block phase justifyQc).1 = .voted vote) ↔
      host.PassesVoteChecks proposal block phase justifyQc := by
  unfold onConsensusProposal ConsensusNode.validateProposal
  constructor
  · rintro ⟨vote, voted⟩
    by_cases hash_eq : block.blockHash = proposal.blockHash
    · by_cases chain_eq : block.header.chainId = host.consensus.chain.chainId
      · simp only [hash_eq, ne_eq, not_true_eq_false, if_false, require, chain_eq, if_true] at voted
        cases made : host.core.makeVote proposal justifyQc phase with
        | mk outcome core =>
            cases outcome with
            | error message => simp [made] at voted
            | ok cast =>
                obtain ⟨checked, consistent, _, _⟩ := ConsensusCore.makeVote_eq_ok made
                exact ⟨hash_eq, chain_eq, checked, consistent⟩
      · simp [hash_eq, require, chain_eq] at voted
    · simp [hash_eq] at voted
  · rintro ⟨hash_eq, chain_eq, checked, consistent⟩
    refine ⟨host.core.localVote proposal phase, ?_⟩
    simp [hash_eq, require, chain_eq, ConsensusCore.makeVote_of_checked checked consistent]

omit [DecidableEq H] in
/-- A block with the host's chain id and the proposal's height can be applied exactly when it obeys
the rules that nothing checks before a vote. -/
theorem obeysOtherRules_iff {host : ConsensusHost H} {proposal : Proposal H} {block : BlockV2 H}
    (chain_eq : block.header.chainId = host.consensus.chain.chainId) :
    host.ObeysOtherRules proposal block ↔
      host.consensus.chain.BlockAccepted block ∧ proposal.height = block.header.height := by
  constructor
  · intro obeys
    exact
      ⟨{ version := obeys.version
         chainId := chain_eq
         height := obeys.blockHeight.trans obeys.height
         prevBlockHash := obeys.prevBlockHash
         sorted := obeys.sorted
         keysNodup := obeys.keysNodup
         keysLength := obeys.keysLength
         blockHash := obeys.derivedHash
         entries := obeys.entries
         sendersNodup := obeys.sendersNodup
         diffRoot := obeys.diffRoot
         stateRoot := obeys.stateRoot }, obeys.blockHeight.symm⟩
  · rintro ⟨accepted, height_eq⟩
    exact
      { height := height_eq.trans accepted.height
        blockHeight := height_eq.symm
        version := accepted.version
        prevBlockHash := accepted.prevBlockHash
        sorted := accepted.sorted
        keysNodup := accepted.keysNodup
        keysLength := accepted.keysLength
        derivedHash := accepted.blockHash
        entries := accepted.entries
        sendersNodup := accepted.sendersNodup
        diffRoot := accepted.diffRoot
        stateRoot := accepted.stateRoot }

section Examples

open SymbolicDigest

/-- The first block under the height of a block far ahead. -/
def skippingBlock : BlockV2 SymbolicDigest :=
  { firstBlock with header := { firstBlock.header with height := 7 } }

end Examples

end ConsensusHost

end EZChain
