import EZChain.Chain.Replay
import EZChain.Host.RoundDriver
import EZChain.Host.Startup

/-!
# Rounds of a lone validator

A validator whose own vote is a quorum comes through all three phases of a round on its own, and the
round commits every block that the chain accepts.
-/

namespace EZChain

open Checks ConsensusCore

variable {H : Type}

namespace ConsensusCore

variable [DecidableEq H] [Crypto H]

/-- The core is a quorum on its own; it has neither cast nor counted its vote for a proposal in the
listed phases. -/
structure Alone (core : ConsensusCore H) (proposal : Proposal H)
    (unvoted uncounted : List VotePhase) : Prop where
  quorum : core.validatorSet.hasQuorum {core.localValidatorId} = true
  chain : proposal.chainId = core.chainId ∧ proposal.epochId = core.epochId
  sameSet : proposal.validatorSetHash = core.validatorSet.validatorSetHash
  proposer : core.validatorSet.contains proposal.proposerId = true
  unjustified : proposal.justifyQcHash = none
  current : core.pacemaker.currentRound ≤ proposal.round + 1
  choices : ∀ phase ∈ unvoted,
    core.localVoteChoice.get? (proposal.height, proposal.round, phase) = none
  counts : ∀ phase ∈ uncounted, core.voteCollector.voteChoiceBySigner.get?
    (proposal.height, proposal.round, phase, core.localValidatorId) = none
  fits : core.pacemaker.Fits core.highestQc core.lockedQc

variable {core : ConsensusCore H} {proposal : Proposal H} {phase : VotePhase}
  {unvoted uncounted : List VotePhase}

/-! ## One phase -/

/-- A certificate of the round at most keeps the pacemaker close to the proposal. -/
theorem Alone.observeQc (alone : core.Alone proposal unvoted uncounted) {qc : Option (QC H)}
    (round_le : ∀ given ∈ qc, given.round ≤ proposal.round) :
    (core.observeQc qc).Alone proposal unvoted uncounted where
  quorum := by simpa using alone.quorum
  chain := by simpa using alone.chain
  sameSet := by simpa using alone.sameSet
  proposer := by simpa using alone.proposer
  unjustified := alone.unjustified
  current := by
    rw [pacemaker_observeQc]
    cases qc with
    | none => exact alone.current
    | some given =>
        rw [(PacemakerState.afterQc_some _ given).1]
        exact max_le alone.current (Nat.succ_le_succ (round_le given rfl))
  choices := by simpa using alone.choices
  counts := by simpa using alone.counts
  fits := by
    rw [pacemaker_observeQc, highestQc_observeQc, lockedQc_observeQc]
    exact alone.fits.afterQc qc

/-- The core votes for the proposal in the next phase. -/
theorem Alone.makeVote (alone : core.Alone proposal (phase :: unvoted) uncounted)
    (later : phase ∉ unvoted) :
    ∃ voted, core.makeVote proposal none phase = (.ok (core.localVote proposal phase), voted) ∧
      voted.localValidatorId = core.localValidatorId ∧
      voted.localVote proposal phase = core.localVote proposal phase ∧
      voted.Alone proposal unvoted uncounted := by
  have checked : (core.observeQc none).checkProposal proposal none = .ok () := by
    refine checkProposal_eq_ok.mpr ⟨alone.chain, alone.sameSet, alone.proposer, alone.current, ?_,
      fun _ _ => forall_mem_none _⟩
    rw [alone.unjustified]
    exact forall_mem_none _
  have unvoted_now := alone.choices phase List.mem_cons_self
  refine ⟨_, makeVote_of_checked checked fun existing mem => ?_, rfl, rfl, ?_⟩
  · rw [unvoted_now] at mem
    cases mem
  · refine ⟨alone.quorum, alone.chain, alone.sameSet, alone.proposer, alone.unjustified,
      alone.current, fun other member => ?_, alone.counts, alone.fits⟩
    have other_ne : phase ≠ other := fun same => later (same ▸ member)
    have key_ne : (proposal.height, proposal.round, phase) ≠
        (proposal.height, proposal.round, other) := by simp [other_ne]
    exact (OrderedDict.get?_set_of_ne _ key_ne _).trans
      (alone.choices other (List.mem_cons_of_mem _ member))

/-- The core counts its own vote and returns a certificate of the round. -/
theorem Alone.acceptVote (alone : core.Alone proposal unvoted (phase :: uncounted))
    (later : phase ∉ uncounted) :
    ∃ qc final, core.acceptVote (core.localVote proposal phase) = (.ok (some qc), final) ∧
      qc.round = proposal.round ∧ final.localValidatorId = core.localValidatorId ∧
      final.Alone proposal unvoted uncounted := by
  have uncounted_now := alone.counts phase List.mem_cons_self
  have admits : core.voteCollector.Admits (core.localVote proposal phase) core.validatorSet := by
    refine ⟨rfl, core.local_mem, fun existing mem => ?_⟩
    have found := uncounted_now.symm.trans (Option.mem_def.mp mem)
    cases found
  have quorum : core.validatorSet.hasQuorum (insert (core.localVote proposal phase).voterId
      (core.voteCollector.others (core.localVote proposal phase))) = true :=
    ValidatorSet.hasQuorum_mono (Finset.singleton_subset_iff.mpr (Finset.mem_insert_self _ _))
      alone.quorum
  have returned := acceptVote_eq_ok.mpr ⟨admits, rfl⟩
  rw [if_pos quorum] at returned
  have collector_eq := voteCollector_acceptVote admits
  have identity := identity_perform core (.acceptVote (core.localVote proposal phase))
  have choices_eq : (core.perform (.acceptVote (core.localVote proposal phase))).localVoteChoice =
      core.localVoteChoice := localVoteChoice_perform core _ rfl
  have observed_eq : core.observed (.acceptVote (core.localVote proposal phase)) =
      some (VoteCollector.certificate (core.localVote proposal phase)
        (core.voteCollector.others (core.localVote proposal phase))) := by
    simp only [observed, returned]
    rfl
  have pacemaker_eq := pacemaker_perform core (.acceptVote (core.localVote proposal phase))
  have highest_eq := highestQc_perform core (.acceptVote (core.localVote proposal phase))
  have locked_eq := lockedQc_perform core (.acceptVote (core.localVote proposal phase))
  rw [observed_eq] at pacemaker_eq highest_eq locked_eq
  rcases accepted : core.acceptVote (core.localVote proposal phase) with ⟨outcome, final⟩
  simp only [perform, accepted] at returned collector_eq identity choices_eq
  simp only [perform, accepted] at pacemaker_eq highest_eq locked_eq
  obtain ⟨local_eq, set_eq, chain_eq, epoch_eq⟩ := identity
  refine ⟨_, final, by rw [returned], rfl, local_eq, ?_⟩
  constructor
  case quorum =>
    rw [set_eq, local_eq]
    exact alone.quorum
  case chain =>
    rw [chain_eq, epoch_eq]
    exact alone.chain
  case sameSet =>
    rw [set_eq]
    exact alone.sameSet
  case proposer =>
    rw [set_eq]
    exact alone.proposer
  case unjustified => exact alone.unjustified
  case current =>
    rw [pacemaker_eq]
    refine (PacemakerState.afterQc_some _ _).1.le.trans (max_le alone.current le_rfl)
  case choices =>
    rw [choices_eq]
    exact alone.choices
  case counts =>
    intro other member
    have other_ne : phase ≠ other := fun same => later (same ▸ member)
    rw [collector_eq, local_eq]
    have key_ne : (proposal.height, proposal.round, phase, core.localValidatorId) ≠
        (proposal.height, proposal.round, other, core.localValidatorId) := by simp [other_ne]
    exact (OrderedDict.get?_set_of_ne _ key_ne _).trans
      (alone.counts other (List.mem_cons_of_mem _ member))
  case fits =>
    rw [pacemaker_eq, highest_eq, locked_eq]
    exact (alone.fits.afterQc _).afterTc none

/-- A lone validator comes through a phase. -/
theorem Alone.drivePhase (alone : core.Alone proposal (phase :: unvoted) (phase :: unvoted))
    (later : phase ∉ unvoted) {observedQc : Option (QC H)}
    (round_le : ∀ given ∈ observedQc, given.round ≤ proposal.round) :
    ∃ qc final, core.drivePhaseOverNetwork proposal phase none observedQc core.localValidatorId
        [] = (.ok qc, final) ∧
      qc.round = proposal.round ∧ final.localValidatorId = core.localValidatorId ∧
      final.Alone proposal unvoted unvoted := by
  obtain ⟨voted, votes, voted_id, vote_eq, voted_alone⟩ := (alone.observeQc round_le).makeVote later
  obtain ⟨qc, final, accepts, qc_round, final_id, final_alone⟩ := voted_alone.acceptVote later
  have own : voted.localValidatorId = core.localValidatorId :=
    voted_id.trans (localValidatorId_observeQc core observedQc)
  rw [vote_eq] at accepts
  refine ⟨qc, final, ?_, qc_round, final_id.trans own, final_alone⟩
  simp only [drivePhaseOverNetwork, votes, own, List.map_nil, List.mem_singleton, if_true,
    acceptVotes, accepts, remoteVotes]
  rfl

end ConsensusCore

/-! ## The round -/

variable [DecidableEq H] [Crypto H]

/-- A node commits an accepted block that its store does not have. -/
theorem ConsensusNode.exists_commit {node : ConsensusNode H} {block : BlockV2 H}
    (accepted : node.chain.BlockAccepted block)
    (fresh : block.header.height ∉ node.store.blocks.keys)
    (unseen : ∀ stored ∈ node.store.blocks.values, stored.blockHash ≠ block.blockHash) :
    ∃ next, node.validateAndCommit block = (.ok (), next) := by
  have above : ¬ block.header.height ≤ node.chain.currentHeight := by
    rw [accepted.height]
    omega
  obtain ⟨store, saved⟩ := exists_save (node.chain.nextState block) fresh unseen
  refine ⟨{ node with chain := node.chain.nextState block, store := store }, ?_⟩
  simp only [validateAndCommit, validateProposal, require_of accepted.chainId, commitBlock,
    if_neg above, applyBlock, ChainStateV2.applyBlock_of_accepted accepted, saved]

namespace ConsensusHost

omit [DecidableEq H] [Crypto H] in
theorem exists_snapshot_of_fits {host : ConsensusHost H}
    (fits : host.core.pacemaker.Fits host.core.highestQc host.core.lockedQc) :
    ∃ snapshot, host.validateRuntimeState = .ok snapshot := by
  refine exists_validateRuntimeState.mpr ⟨fits.ahead, fits.timeout, fun highest found => ?_⟩
  have locked_le := fits.locked_le
  have decided_le := fits.decided_le
  rw [Option.mem_def.mp found] at locked_le decided_le
  exact ⟨locked_le, decided_le⟩

/-- The round of a lone validator returns when its node commits the block. -/
theorem returns_of_alone {host : ConsensusHost H} {request : RoundRequest H}
    {next : ConsensusNode H}
    (alone : host.core.Alone (host.roundProposal request) [.prepare, .precommit, .commit]
      [.prepare, .precommit, .commit])
    (own : request.firstId = host.core.localValidatorId) (peerless : request.peers = [])
    (pending : host.consensus.chain.bundlePool.snapshot request.limit ≠ [])
    (commits : host.consensus.validateAndCommit (host.roundBlock request) = (.ok (), next)) :
    ∃ result final, host.runMvpConsensusRound request = (.ok result, final) := by
  have uncertified : host.core.highestQc = none := Option.map_eq_none_iff.mp alone.unjustified
  have no_others : ∀ phase, request.others phase = [] := by
    intro phase
    rw [RoundRequest.others, peerless]
    rfl
  obtain ⟨prepareQc, prepared, prepares, prepare_round, prepared_id, prepared_alone⟩ :=
    alone.drivePhase (by simp) (forall_mem_none _)
  have prepare_le : ∀ given ∈ some prepareQc,
      given.round ≤ (host.roundProposal request).round := by
    simp [prepare_round]
  obtain ⟨precommitQc, precommitted, precommits, precommit_round, precommitted_id,
    precommitted_alone⟩ := prepared_alone.drivePhase (by simp) prepare_le
  have precommit_le : ∀ given ∈ some precommitQc,
      given.round ≤ (host.roundProposal request).round := by
    simp [precommit_round]
  obtain ⟨commitQc, committed, votes, commit_round, -, committed_alone⟩ :=
    precommitted_alone.drivePhase (by simp) precommit_le
  have commit_le : ∀ given ∈ some commitQc,
      given.round ≤ (host.roundProposal request).round := by
    simp [commit_round]
  have checked : ∃ snapshot, ({ host with
      core := committed.observeQc (some commitQc)
      consensus := next } : ConsensusHost H).validateRuntimeState = .ok snapshot :=
    exists_snapshot_of_fits (committed_alone.observeQc commit_le).fits
  obtain ⟨snapshot, checked⟩ := checked
  rw [prepared_id] at precommits
  rw [precommitted_id, prepared_id] at votes
  simp only [runMvpConsensusRound, own, ne_eq, not_true_eq_false, if_false, if_neg pending,
    peerless, List.find?_nil, drivePhase, uncertified, no_others, prepares, precommits, votes,
    finishRound, finalizeCommittedBlock, commits, checked]
  exact ⟨_, _, rfl⟩

end ConsensusHost

end EZChain
