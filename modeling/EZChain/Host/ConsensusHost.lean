import EZChain.Chain.Store
import EZChain.Consensus.Core

/-!
# Consensus host

A host in mvp mode owns a consensus node and a consensus core and handles the envelopes of its
peers.  A handler returns a reply or raises, and what it changed before raising stays changed.
Receipt delivery, bundle routing and sortition do not touch the chain or the core and are left out.
-/

namespace EZChain

open Checks

variable {H : Type}

/-! ## Applying blocks -/

section Node

variable [Crypto H] [DecidableEq H]

/-- `V2ConsensusNode.apply_block`. -/
def ConsensusNode.applyBlock (node : ConsensusNode H) (block : BlockV2 H) :
    Except String Unit × ConsensusNode H :=
  match node.chain.applyBlock block with
  | (.error message, chain) => (.error message, { node with chain := chain })
  | (.ok receipts, chain) =>
      match node.save chain block receipts with
      | .error message => (.error message, { node with chain := chain })
      | .ok store => (.ok (), { node with chain := chain, store := store })

/-- `LocalCommitAdapter.validate_proposal`. -/
def ConsensusNode.validateProposal (node : ConsensusNode H) (block : BlockV2 H) :
    Except String Unit :=
  require (block.header.chainId = node.chain.chainId) "unexpected_chain_id"

/-- `LocalCommitAdapter.commit_block`: a block at or below the current height is passed over. -/
def ConsensusNode.commitBlock (node : ConsensusNode H) (block : BlockV2 H) :
    Except String Unit × ConsensusNode H :=
  if block.header.height ≤ node.chain.currentHeight then (.ok (), node) else node.applyBlock block

/-- `validate_proposal` followed by `commit_block`. -/
def ConsensusNode.validateAndCommit (node : ConsensusNode H) (block : BlockV2 H) :
    Except String Unit × ConsensusNode H :=
  match node.validateProposal block with
  | .error message => (.error message, node)
  | .ok () => node.commitBlock block

end Node

/-! ## The host -/

structure ConsensusHost (H : Type) where
  /-- The node with the chain and its store. -/
  consensus : ConsensusNode H
  /-- The core that votes. -/
  core : ConsensusCore H
  /-- The blocks that peers sent, by height. -/
  fetchedBlocks : OrderedDict ℕ (BlockV2 H)

/-- `ConsensusRuntimeSnapshot` of a host in mvp mode. -/
structure ConsensusRuntimeSnapshot (H : Type) where
  nodeId : String
  chainHeight : ℕ
  chainBlockHash : H
  currentRound : ℕ
  highestQcRound : Option ℕ
  highestQcPhase : Option String
  lockedQcRound : Option ℕ
  highestTcRound : ℕ
  lastDecidedRound : ℕ

/-- What a handler does with an envelope. -/
inductive Reply (H : Type) where
  /-- The handler raised. -/
  | raised (message : String)
  /-- The response carries `ok = False` and an error. -/
  | refused (error : String)
  /-- A fetch response without a block. -/
  | missing
  /-- A fetch response with a block of the given height. -/
  | fetched (height : ℕ)
  | alreadyCurrent
  | synced (appliedHeights : List ℕ) (snapshot : ConsensusRuntimeSnapshot H)
  | voted (vote : Vote H)
  | finalized (height : ℕ) (blockHash : H) (snapshot : ConsensusRuntimeSnapshot H)
  | timeoutVoted (timeoutVote : TimeoutVote H)
  | timedOut (round nextRound : ℕ)

namespace ConsensusHost

/-- `consensus_runtime_snapshot`. -/
def runtimeSnapshot (host : ConsensusHost H) : ConsensusRuntimeSnapshot H where
  nodeId := host.core.localValidatorId
  chainHeight := host.consensus.chain.currentHeight
  chainBlockHash := host.consensus.chain.currentBlockHash
  currentRound := host.core.pacemaker.currentRound
  highestQcRound := host.core.store.highestQc.map QC.round
  highestQcPhase := host.core.store.highestQc.map fun qc => qc.phase.value
  lockedQcRound := host.core.store.lockedQc.map QC.round
  highestTcRound := host.core.pacemaker.highestTcRound
  lastDecidedRound := host.core.pacemaker.lastDecidedRound

/-- `validate_runtime_state`. -/
def validateRuntimeState (host : ConsensusHost H) :
    Except String (ConsensusRuntimeSnapshot H) := do
  let snapshot := host.runtimeSnapshot
  require (0 < snapshot.currentRound) "invalid_current_round"
  require (∀ round ∈ snapshot.highestQcRound, round < snapshot.currentRound)
    "current_round_not_ahead_of_highest_qc"
  require (snapshot.highestTcRound < snapshot.currentRound) "current_round_not_ahead_of_highest_tc"
  require (∀ highest ∈ snapshot.highestQcRound, ∀ locked ∈ snapshot.lockedQcRound,
    locked ≤ highest) "locked_qc_above_highest_qc"
  require (∀ highest ∈ snapshot.highestQcRound, snapshot.lastDecidedRound ≤ highest)
    "decided_round_above_highest_qc"
  pure snapshot

/-- `_remember_fetched_block`. -/
def rememberFetchedBlock (host : ConsensusHost H) (block : BlockV2 H) : ConsensusHost H :=
  { host with fetchedBlocks := host.fetchedBlocks.set block.header.height block }

variable [Crypto H] [DecidableEq H]

/-- `_fetch_announced_block`: fetch responses arrive while the host waits for a block. -/
def fetchAnnouncedBlock (host : ConsensusHost H) (responses : List (BlockV2 H)) (height : ℕ) :
    Except String (BlockV2 H) × ConsensusHost H :=
  let waited := responses.foldl rememberFetchedBlock host
  (demand (waited.fetchedBlocks.get? height) ("missing_announced_block:" ++ toString height),
    waited)

/-- The block that is applied at a height: the announced one or a fetched one. -/
def blockAt (host : ConsensusHost H) (announced : Option (BlockV2 H))
    (responses : List (BlockV2 H)) (height : ℕ) : Except String (BlockV2 H) × ConsensusHost H :=
  match announced with
  | none => host.fetchAnnouncedBlock responses height
  | some block =>
      if block.header.height = height then (.ok block, host)
      else host.fetchAnnouncedBlock responses height

/-- `_sync_announced_blocks` over a list of heights; the responses to the fetch at a height are
given by a function. -/
def syncAnnouncedBlocks (announced : Option (BlockV2 H)) (responses : ℕ → List (BlockV2 H)) :
    List ℕ → ConsensusHost H → Except String Unit × ConsensusHost H
  | [], host => (.ok (), host)
  | height :: heights, host =>
      match host.blockAt announced (responses height) height with
      | (.error message, waited) => (.error message, waited)
      | (.ok block, waited) =>
          match waited.consensus.validateAndCommit block with
          | (.error message, node) => (.error message, { waited with consensus := node })
          | (.ok (), node) =>
              syncAnnouncedBlocks announced responses heights { waited with consensus := node }

/-- The heights from the next one up to the announced one. -/
def missingHeights (host : ConsensusHost H) (announcedHeight : ℕ) : List ℕ :=
  List.range' (host.consensus.chain.currentHeight + 1)
    (announcedHeight - host.consensus.chain.currentHeight)

/-- The checks of an announced block against the other fields of the announcement. -/
def checkAnnouncement (announcedHeight : ℕ) (announcedHash : Option H) (block : BlockV2 H) :
    Except String Unit := do
  require (block.header.height = announcedHeight) "announced_block_height_mismatch"
  require (∀ hash ∈ announcedHash, block.blockHash = hash) "announced_block_hash_mismatch"

/-- The part of `_on_block_announce` after the announced block was remembered. -/
def syncToAnnouncement (host : ConsensusHost H) (announcedHeight : ℕ) (announcedHash : Option H)
    (announced : Option (BlockV2 H)) (responses : ℕ → List (BlockV2 H)) :
    Reply H × ConsensusHost H :=
  if announcedHeight = host.consensus.chain.currentHeight ∧
      ∃ hash ∈ announcedHash, hash ≠ host.consensus.chain.currentBlockHash then
    (.refused "announced_block_hash_conflict", host)
  else if announcedHeight ≤ host.consensus.chain.currentHeight then
    (.alreadyCurrent, host)
  else
    match syncAnnouncedBlocks announced responses (host.missingHeights announcedHeight) host with
    | (.error message, synced) => (.refused message, synced)
    | (.ok (), synced) =>
        match synced.validateRuntimeState with
        | .error message => (.raised message, synced)
        | .ok snapshot => (.synced (host.missingHeights announcedHeight) snapshot, synced)

/-- `_on_block_announce`. -/
def onBlockAnnounce (host : ConsensusHost H) (announcedHeight : ℕ) (announcedHash : Option H)
    (announced : Option (BlockV2 H)) (responses : ℕ → List (BlockV2 H)) :
    Reply H × ConsensusHost H :=
  match announced with
  | none => host.syncToAnnouncement announcedHeight announcedHash none responses
  | some block =>
      match checkAnnouncement announcedHeight announcedHash block with
      | .error message => (.refused message, host)
      | .ok () =>
          (host.rememberFetchedBlock block).syncToAnnouncement announcedHeight
            (some block.blockHash) (some block) responses

/-- `_on_block_fetch_response`. -/
def onBlockFetchResponse (host : ConsensusHost H) : Option (BlockV2 H) → Reply H × ConsensusHost H
  | none => (.missing, host)
  | some block => (.fetched block.header.height, host.rememberFetchedBlock block)

/-- `_on_consensus_proposal`. -/
def onConsensusProposal (host : ConsensusHost H) (proposal : Proposal H) (block : BlockV2 H)
    (phase : VotePhase) (justifyQc : Option (QC H)) : Reply H × ConsensusHost H :=
  if block.blockHash ≠ proposal.blockHash then
    (.refused "proposal_block_hash_mismatch", host)
  else
    match host.consensus.validateProposal block with
    | .error message => (.refused message, host)
    | .ok () =>
        match host.core.makeVote proposal justifyQc phase with
        | (.error message, core) => (.refused message, { host with core := core })
        | (.ok vote, core) => (.voted vote, { host with core := core })

/-- `_finalize_committed_block`. -/
def finalizeCommittedBlock (host : ConsensusHost H) (block : BlockV2 H) (commitQc : QC H) :
    Except String (ConsensusRuntimeSnapshot H) × ConsensusHost H :=
  let observed := { host with core := host.core.observeQc (some commitQc) }
  match observed.consensus.validateAndCommit block with
  | (.error message, node) => (.error message, { observed with consensus := node })
  | (.ok (), node) =>
      ({ observed with consensus := node }.validateRuntimeState,
        { observed with consensus := node })

/-- `_on_consensus_finalize`. -/
def onConsensusFinalize (host : ConsensusHost H) (block : BlockV2 H) (commitQc : QC H) :
    Reply H × ConsensusHost H :=
  if commitQc.phase ≠ .commit then
    (.refused "missing_commit_qc", host)
  else
    match host.finalizeCommittedBlock block commitQc with
    | (.error message, finalized) => (.raised message, finalized)
    | (.ok snapshot, finalized) =>
        (.finalized block.header.height block.blockHash snapshot, finalized)

/-- `_on_consensus_timeout_vote`. -/
def onConsensusTimeoutVote (host : ConsensusHost H) (height round : ℕ) :
    Reply H × ConsensusHost H :=
  match host.core.makeTimeoutVote height round with
  | (.error message, core) => (.raised message, { host with core := core })
  | (.ok timeoutVote, core) => (.timeoutVoted timeoutVote, { host with core := core })

/-- `_on_consensus_timeout_cert`. -/
def onConsensusTimeoutCert (host : ConsensusHost H) (tc : TC H) : Reply H × ConsensusHost H :=
  let core := host.core.observeTc (some tc)
  (.timedOut tc.round core.pacemaker.currentRound, { host with core := core })

/-- An envelope of the consensus traffic, with the fetch responses that arrive while it is
handled. -/
inductive Envelope (H : Type) where
  | blockAnnounce (announcedHeight : ℕ) (announcedHash : Option H)
      (announced : Option (BlockV2 H)) (responses : ℕ → List (BlockV2 H))
  | blockFetchResponse (block : Option (BlockV2 H))
  | consensusProposal (proposal : Proposal H) (block : BlockV2 H) (phase : VotePhase)
      (justifyQc : Option (QC H))
  | consensusFinalize (block : BlockV2 H) (commitQc : QC H)
  | consensusTimeoutVote (height round : ℕ)
  | consensusTimeoutCert (tc : TC H)

/-- `handle_envelope`. -/
def handleEnvelope (host : ConsensusHost H) : Envelope H → Reply H × ConsensusHost H
  | .blockAnnounce announcedHeight announcedHash announced responses =>
      host.onBlockAnnounce announcedHeight announcedHash announced responses
  | .blockFetchResponse block => host.onBlockFetchResponse block
  | .consensusProposal proposal block phase justifyQc =>
      host.onConsensusProposal proposal block phase justifyQc
  | .consensusFinalize block commitQc => host.onConsensusFinalize block commitQc
  | .consensusTimeoutVote height round => host.onConsensusTimeoutVote height round
  | .consensusTimeoutCert tc => host.onConsensusTimeoutCert tc

end ConsensusHost

end EZChain
