import EZChain.Consensus.Store

/-!
# Consensus core

The voting rule of one validator.  A call either returns or raises a message, and what it has
changed before raising stays changed, so every call is a result together with the next core.
-/

namespace EZChain

open Checks

structure ConsensusCore (H : Type) where
  chainId : ℕ
  epochId : ℕ
  /-- The member that the core votes for. -/
  localValidatorId : String
  validatorSet : ValidatorSet
  /-- The opened store. -/
  store : ConsensusStore H
  /-- The round and the certificates that moved it. -/
  pacemaker : PacemakerState
  /-- The votes counted so far. -/
  voteCollector : VoteCollector H
  /-- The timeout votes counted so far. -/
  timeoutVoteCollector : TimeoutVoteCollector H
  /-- The blocks that this member voted for. -/
  localVoteChoice : OrderedDict (ℕ × ℕ × VotePhase) H
  /-- The rounds that this member timed out. -/
  localTimeoutRounds : Finset (ℕ × ℕ)
  /-- The local validator is a member of the validator set. -/
  local_mem : validatorSet.contains localValidatorId = true

namespace ConsensusCore

variable {H : Type} [DecidableEq H] [Crypto H]

/-- `__post_init__`: the pacemaker and the collectors are restored from the store. -/
def postInit (chainId epochId : ℕ) (localValidatorId : String) (validatorSet : ValidatorSet)
    (store : ConsensusStore H) : Except String (ConsensusCore H) :=
  if member : validatorSet.contains localValidatorId = true then
    .ok
      { chainId := chainId
        epochId := epochId
        localValidatorId := localValidatorId
        validatorSet := validatorSet
        store := store
        pacemaker := store.pacemakerState
        voteCollector := store.voteLog.entries.foldl
          (fun collector entry =>
            let ⟨(height, round, phase, voterId), blockHash⟩ := entry
            collector.restoreVote height round phase voterId blockHash)
          (.empty H)
        timeoutVoteCollector := store.timeoutLog.entries.foldl
          (fun collector entry =>
            let ⟨(height, round, voterId), highQc⟩ := entry
            collector.restoreTimeout height round voterId highQc)
          (.empty H)
        localVoteChoice := store.voteLog.entries.foldl
          (fun choices entry =>
            let ⟨(height, round, phase, voterId), blockHash⟩ := entry
            if voterId = localValidatorId then choices.set (height, round, phase) blockHash
            else choices)
          ∅
        localTimeoutRounds := store.timeoutLog.entries.foldl
          (fun rounds entry =>
            let ⟨(height, round, voterId), _⟩ := entry
            if voterId = localValidatorId then insert (height, round) rounds else rounds)
          ∅
        local_mem := member }
  else
    .error "local_validator_id must be in validator set"

/-- A core that opens an empty store. -/
def fresh (chainId epochId : ℕ) (localValidatorId : String) (validatorSet : ValidatorSet)
    (member : validatorSet.contains localValidatorId = true) : ConsensusCore H where
  chainId := chainId
  epochId := epochId
  localValidatorId := localValidatorId
  validatorSet := validatorSet
  store := .empty H
  pacemaker := {}
  voteCollector := .empty H
  timeoutVoteCollector := .empty H
  localVoteChoice := ∅
  localTimeoutRounds := ∅
  local_mem := member

theorem postInit_empty (chainId epochId : ℕ) {localValidatorId : String}
    {validatorSet : ValidatorSet} (member : validatorSet.contains localValidatorId = true) :
    postInit chainId epochId localValidatorId validatorSet (.empty H) =
      .ok (fresh chainId epochId localValidatorId validatorSet member) :=
  dif_pos member

def highestQc (core : ConsensusCore H) : Option (QC H) := core.store.highestQc

def lockedQc (core : ConsensusCore H) : Option (QC H) := core.store.lockedQc

/-- Save a certificate and move the pacemaker; the lock follows precommit certificates. -/
def observeQc (core : ConsensusCore H) : Option (QC H) → ConsensusCore H
  | none => core
  | some qc =>
      let saved := core.store.saveQc (qcHash qc) qc
      let noted :=
        core.pacemaker.noteQc qc.round (if qc.phase = .precommit then some qc.round else none)
      let store :=
        if qc.phase = .precommit then
          ((saved.updateLockedQc qc).pruneVoteLog qc.round).pruneTimeoutLog qc.round
        else
          saved
      let pacemaker := if qc.phase = .commit then noted.noteDecide qc.round else noted
      { core with store := store.savePacemakerState pacemaker, pacemaker := pacemaker }

def observeTc (core : ConsensusCore H) : Option (TC H) → ConsensusCore H
  | none => core
  | some tc =>
      let pacemaker := core.pacemaker.noteTc tc.round
      { core with
        store := (core.store.saveTc (tcHash tc) tc).savePacemakerState pacemaker
        pacemaker := pacemaker }

/-- The check of the certificate that a proposal names. -/
def checkJustifyHash (core : ConsensusCore H) (proposal : Proposal H)
    (justifyQc : Option (QC H)) : Except String Unit :=
  match proposal.justifyQcHash with
  | none => pure ()
  | some justifyQcHash => do
      let justify ← demand justifyQc "proposal justify_qc missing"
      require (qcHash justify = justifyQcHash) "proposal justify_qc_hash mismatch"
      require (justify.validatorSetHash = core.validatorSet.validatorSetHash)
        "justify_qc validator_set_hash mismatch"

/-- The lock is only consulted when a justifying certificate was given. -/
def checkLock (core : ConsensusCore H) (proposal : Proposal H) (justifyQc : Option (QC H)) :
    Except String Unit :=
  match core.lockedQc, justifyQc with
  | some locked, some justify =>
      require (¬ (proposal.blockHash ≠ locked.blockHash ∧ justify.round < locked.round ∧
        justify.blockHash ≠ locked.blockHash)) "proposal justify_qc is below locked qc"
  | _, _ => pure ()

/-- The checks of `validate_proposal`, made after the justifying certificate was observed. -/
def checkProposal (core : ConsensusCore H) (proposal : Proposal H) (justifyQc : Option (QC H)) :
    Except String Unit := do
  require (proposal.chainId = core.chainId ∧ proposal.epochId = core.epochId)
    "proposal chain or epoch mismatch"
  require (proposal.validatorSetHash = core.validatorSet.validatorSetHash)
    "proposal validator_set_hash mismatch"
  require (core.validatorSet.contains proposal.proposerId = true)
    "proposal proposer is not in validator set"
  -- The pacemaker may be one round ahead while the round still finishes its later phases.
  require (core.pacemaker.currentRound ≤ proposal.round + 1) "proposal round is stale"
  core.checkJustifyHash proposal justifyQc
  core.checkLock proposal justifyQc

def validateProposal (core : ConsensusCore H) (proposal : Proposal H)
    (justifyQc : Option (QC H)) : Except String Unit × ConsensusCore H :=
  let observed := core.observeQc justifyQc
  match observed.checkProposal proposal justifyQc with
  | .error message => (.error message, observed)
  | .ok () =>
      (.ok (),
        { observed with store := observed.store.saveProposal (proposalHash proposal) proposal })

/-- The vote of the local validator for a proposal. -/
def localVote (core : ConsensusCore H) (proposal : Proposal H) (phase : VotePhase) : Vote H where
  chainId := core.chainId
  epochId := core.epochId
  height := proposal.height
  round := proposal.round
  voterId := core.localValidatorId
  validatorSetHash := core.validatorSet.validatorSetHash
  blockHash := proposal.blockHash
  phase := phase
  height_pos := proposal.height_pos
  round_pos := proposal.round_pos
  voterId_ne := ValidatorSet.id_ne_of_contains core.local_mem

def makeVote (core : ConsensusCore H) (proposal : Proposal H) (justifyQc : Option (QC H))
    (phase : VotePhase) : Except String (Vote H) × ConsensusCore H :=
  match core.validateProposal proposal justifyQc with
  | (.error message, validated) => (.error message, validated)
  | (.ok (), validated) =>
      if ∀ existing ∈ validated.localVoteChoice.get? (proposal.height, proposal.round, phase),
          existing = proposal.blockHash then
        (.ok (validated.localVote proposal phase),
          { validated with
            localVoteChoice := validated.localVoteChoice.set
              (proposal.height, proposal.round, phase) proposal.blockHash
            store := validated.store.saveVoteRecord proposal.height proposal.round phase
              validated.localValidatorId proposal.blockHash })
      else
        (.error "local validator already voted for another block in this phase", validated)

/-- Count a vote and observe the certificate it completes. -/
def acceptVote (core : ConsensusCore H) (vote : Vote H) :
    Except String (Option (QC H)) × ConsensusCore H :=
  match core.voteCollector.addVote vote core.validatorSet with
  | .error message => (.error message, core)
  | .ok (qc, collector) =>
      let counted :=
        { core with
          voteCollector := collector
          store := core.store.saveVoteRecord vote.height vote.round vote.phase vote.voterId
            vote.blockHash }
      (.ok qc, counted.observeQc qc)

/-- The highest certificate, as reported in a timeout vote. -/
def reportedQc (core : ConsensusCore H) : HighQc H :=
  (core.highestQc.map QC.round, core.highestQc.map qcHash)

def makeTimeoutVote (core : ConsensusCore H) (height round : ℕ) :
    Except String (TimeoutVote H) × ConsensusCore H :=
  if positive : 0 < height ∧ 0 < round then
    if (height, round) ∈ core.localTimeoutRounds then
      (.error "local validator already timed out this round", core)
    else
      (.ok
        { chainId := core.chainId
          epochId := core.epochId
          height := height
          round := round
          voterId := core.localValidatorId
          validatorSetHash := core.validatorSet.validatorSetHash
          highQcRound := core.reportedQc.1
          highQcHash := core.reportedQc.2
          height_pos := positive.1
          round_pos := positive.2
          voterId_ne := ValidatorSet.id_ne_of_contains core.local_mem },
        { core with
          localTimeoutRounds := insert (height, round) core.localTimeoutRounds
          store := core.store.saveTimeoutRecord height round core.localValidatorId
            core.reportedQc })
  else
    (.error "height and round must be positive", core)

/-- Count a timeout vote and observe the certificate it completes. -/
def acceptTimeoutVote (core : ConsensusCore H) (timeoutVote : TimeoutVote H) :
    Except String (Option (TC H)) × ConsensusCore H :=
  match core.timeoutVoteCollector.addTimeoutVote timeoutVote core.validatorSet with
  | .error message => (.error message, core)
  | .ok (tc, collector) =>
      let counted :=
        { core with
          timeoutVoteCollector := collector
          store := core.store.saveTimeoutRecord timeoutVote.height timeoutVote.round
            timeoutVote.voterId (timeoutVote.highQcRound, timeoutVote.highQcHash) }
      (.ok tc, counted.observeTc tc)

end ConsensusCore

end EZChain
