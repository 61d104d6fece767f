import EZChain.Consensus.SignerVotes
import EZChain.Host.Certified

/-!
# Driving a round

A leader drives the three phases of a round over the network and commits its block with the last
certificate.  A phase returns the certificate that was formed last, for whichever target the vote
that completed it names.
-/

namespace EZChain

open Checks ConsensusCore

variable {H : Type}

/-- What comes back from a participant that was sent a proposal. -/
inductive PhaseResponse (H : Type) where
  /-- Sending raised. -/
  | raised (message : String)
  /-- No response, or one that is not ok. -/
  | refused
  /-- A response without a vote. -/
  | noVote
  | voted (vote : Vote H)

namespace PhaseResponse

/-- The vote of a response. -/
def vote? : PhaseResponse H → Option (Vote H)
  | .voted vote => some vote
  | _ => none

def read (response : PhaseResponse H) (phase : VotePhase) (peerId : String) :
    Except String (Vote H) :=
  match response with
  | .raised message => .error message
  | .refused => .error ("consensus_phase_failed:" ++ phase.value ++ ":" ++ peerId)
  | .noVote => .error ("missing_vote:" ++ phase.value ++ ":" ++ peerId)
  | .voted vote => .ok vote

theorem read_eq_ok {response : PhaseResponse H} {phase : VotePhase} {peerId : String}
    {vote : Vote H} : response.read phase peerId = .ok vote ↔ response.vote? = some vote := by
  cases response <;> simp [read, vote?]

end PhaseResponse

/-- `remote_votes`: the votes of all responses. -/
def remoteVotes (phase : VotePhase) :
    List (String × PhaseResponse H) → Except String (List (Vote H))
  | [] => .ok []
  | (peerId, response) :: rest => do
      let vote ← response.read phase peerId
      let votes ← remoteVotes phase rest
      pure (vote :: votes)

variable [DecidableEq H] [Crypto H]

namespace ConsensusCore

/-- Accept votes in order; the last certificate that one of them completes is kept. -/
def acceptVotes (core : ConsensusCore H) :
    List (Vote H) → Option (QC H) → Except String (Option (QC H)) × ConsensusCore H
  | [], qc => (.ok qc, core)
  | vote :: rest, qc =>
      match core.acceptVote vote with
      | (.error message, next) => (.error message, next)
      | (.ok maybeQc, next) => next.acceptVotes rest (maybeQc.or qc)

/-- `_drive_phase_over_network`, with the responses of the participants after the first. -/
def drivePhaseOverNetwork (core : ConsensusCore H) (proposal : Proposal H) (phase : VotePhase)
    (proposalJustifyQc observedQc : Option (QC H)) (firstId : String)
    (others : List (String × PhaseResponse H)) : Except String (QC H) × ConsensusCore H :=
  match (core.observeQc observedQc).makeVote proposal proposalJustifyQc phase with
  | (.error message, voted) => (.error message, voted)
  | (.ok localVote, voted) =>
      let localVotes :=
        if voted.localValidatorId ∈ firstId :: others.map Prod.fst then [localVote] else []
      match voted.acceptVotes localVotes none with
      | (.error message, counted) => (.error message, counted)
      | (.ok qc, counted) =>
          match remoteVotes phase others with
          | .error message => (.error message, counted)
          | .ok votes =>
              match counted.acceptVotes votes qc with
              | (.error message, final) => (.error message, final)
              | (.ok none, final) => (.error ("missing_qc:" ++ phase.value), final)
              | (.ok (some qc), final) => (.ok qc, final)

end ConsensusCore

/-! ## Votes and their targets -/

/-- The height, round, phase and block of a vote. -/
def Vote.target (vote : Vote H) : ℕ × ℕ × VotePhase × H :=
  (vote.height, vote.round, vote.phase, vote.blockHash)

/-- The height, round, phase and block of a certificate. -/
def QC.target (qc : QC H) : ℕ × ℕ × VotePhase × H :=
  (qc.height, qc.round, qc.phase, qc.blockHash)

/-- The target that a phase is driven for. -/
def Proposal.target (proposal : Proposal H) (phase : VotePhase) : ℕ × ℕ × VotePhase × H :=
  (proposal.height, proposal.round, phase, proposal.blockHash)

namespace VoteCollector

/-- The collector after a vote was counted. -/
def count (collector : VoteCollector H) (vote : Vote H) : VoteCollector H :=
  collector.restoreVote vote.height vote.round vote.phase vote.voterId vote.blockHash

/-- The signers of the target of a vote, counted before or by earlier votes. -/
def countedBy (collector : VoteCollector H) (earlier : List (Vote H)) (vote : Vote H) :
    Finset String :=
  collector.others vote ∪
    ((earlier.filter fun other => other.target = vote.target).map Vote.voterId).toFinset

/-- The target of a vote has a quorum of signers after earlier votes and the vote itself. -/
def Completes (collector : VoteCollector H) (validatorSet : ValidatorSet)
    (earlier : List (Vote H)) (vote : Vote H) : Prop :=
  validatorSet.hasQuorum (insert vote.voterId (collector.countedBy earlier vote)) = true

instance (collector : VoteCollector H) (validatorSet : ValidatorSet) (earlier : List (Vote H))
    (vote : Vote H) : Decidable (collector.Completes validatorSet earlier vote) :=
  inferInstanceAs (Decidable (_ = true))

/-- The last vote whose target then has a quorum of signers. -/
def lastCompleting (collector : VoteCollector H) (validatorSet : ValidatorSet) :
    List (Vote H) → List (Vote H) → Option (Vote H)
  | _, [] => none
  | earlier, vote :: rest =>
      (collector.lastCompleting validatorSet (earlier ++ [vote]) rest).or
        (if collector.Completes validatorSet earlier vote then some vote else none)

/-- Every vote passes the checks when the ones before it are counted. -/
def AdmitsAll (collector : VoteCollector H) (validatorSet : ValidatorSet) : List (Vote H) → Prop
  | [] => True
  | vote :: rest =>
      collector.Admits vote validatorSet ∧ (collector.count vote).AdmitsAll validatorSet rest

omit [Crypto H] in
theorem mem_others_count {collector : VoteCollector H} {vote other : Vote H} {signer : String} :
    signer ∈ (collector.count vote).others other ↔
      vote.target = other.target ∧ signer = vote.voterId ∨ signer ∈ collector.others other :=
  mem_signersOf_restoreVote

omit [Crypto H] in
theorem mem_countedBy {collector : VoteCollector H} {earlier : List (Vote H)} {vote : Vote H}
    {signer : String} :
    signer ∈ collector.countedBy earlier vote ↔ signer ∈ collector.others vote ∨
      ∃ other ∈ earlier, other.target = vote.target ∧ other.voterId = signer := by
  simp [countedBy, and_assoc]

omit [Crypto H] in
@[simp]
theorem countedBy_nil (collector : VoteCollector H) (vote : Vote H) :
    collector.countedBy [] vote = collector.others vote := by
  simp [countedBy]

omit [Crypto H] in
theorem others_count {collector start : VoteCollector H} {earlier : List (Vote H)}
    (follows : ∀ vote, collector.others vote = start.countedBy earlier vote) (vote other : Vote H) :
    (collector.count vote).others other = start.countedBy (earlier ++ [vote]) other := by
  ext signer
  rw [mem_others_count, follows, mem_countedBy, mem_countedBy]
  simp only [List.mem_append, List.mem_singleton, or_and_right, exists_or, exists_eq_left,
    @eq_comm _ signer]
  exact or_comm.trans or_assoc

omit [Crypto H] in
theorem lastCompleting_eq_some {start : VoteCollector H} {validatorSet : ValidatorSet}
    {earlier votes : List (Vote H)} {last : Vote H}
    (found : start.lastCompleting validatorSet earlier votes = some last) :
    ∃ before after, votes = before ++ last :: after ∧
      start.Completes validatorSet (earlier ++ before) last := by
  induction votes generalizing earlier with
  | nil => cases found
  | cons vote rest induction =>
      simp only [lastCompleting, Option.or_eq_some_iff] at found
      rcases found with later | ⟨-, here⟩
      · obtain ⟨before, after, rfl, completes⟩ := induction later
        exact ⟨vote :: before, after, rfl, by simpa using completes⟩
      · split at here
        next completes =>
          obtain rfl := Option.some.inj here
          exact ⟨[], rest, rfl, by simpa using completes⟩
        · cases here

omit [Crypto H] in
theorem lastCompleting_append {start : VoteCollector H} {validatorSet : ValidatorSet}
    {earlier left right : List (Vote H)} :
    start.lastCompleting validatorSet earlier (left ++ right) =
      (start.lastCompleting validatorSet (earlier ++ left) right).or
        (start.lastCompleting validatorSet earlier left) := by
  induction left generalizing earlier with
  | nil => simp [lastCompleting]
  | cons vote rest induction => simp [lastCompleting, induction, Option.or_assoc]

theorem admitsAll_append {collector : VoteCollector H} {validatorSet : ValidatorSet}
    {left right : List (Vote H)} :
    collector.AdmitsAll validatorSet (left ++ right) ↔
      collector.AdmitsAll validatorSet left ∧
        (left.foldl count collector).AdmitsAll validatorSet right := by
  induction left generalizing collector with
  | nil => simp [AdmitsAll]
  | cons vote rest induction => simp [AdmitsAll, induction, and_assoc]

end VoteCollector

namespace ConsensusCore

open VoteCollector

/-- Votes that pass the checks are accepted, and the certificate that is kept is for the target of
the last one that completes a quorum. -/
theorem acceptVotes_of_admitsAll {core : ConsensusCore H} {start : VoteCollector H}
    {earlier votes : List (Vote H)}
    (follows : ∀ vote, core.voteCollector.others vote = start.countedBy earlier vote)
    (admits : core.voteCollector.AdmitsAll core.validatorSet votes) (qc : Option (QC H)) :
    ∃ result final, core.acceptVotes votes qc = (.ok result, final) ∧
      result.map QC.target =
        ((start.lastCompleting core.validatorSet earlier votes).map Vote.target).or
          (qc.map QC.target) ∧
      (∀ vote, final.voteCollector.others vote = start.countedBy (earlier ++ votes) vote) ∧
      final.voteCollector = votes.foldl count core.voteCollector ∧
      final.validatorSet = core.validatorSet := by
  induction votes generalizing core earlier qc with
  | nil => exact ⟨qc, core, rfl, rfl, by simpa using follows, rfl, rfl⟩
  | cons vote rest induction =>
      obtain ⟨admitted, rest_admits⟩ := admits
      have collector_eq := voteCollector_acceptVote admitted
      have set_eq := (identity_perform core (.acceptVote vote)).2.1
      have formed := acceptVote_eq_ok.mpr ⟨admitted, rfl⟩
      simp only [perform] at collector_eq set_eq
      rcases accepted : core.acceptVote vote with ⟨outcome, next⟩
      simp only [accepted] at collector_eq set_eq formed
      subst formed
      have next_follows : ∀ other, next.voteCollector.others other =
          start.countedBy (earlier ++ [vote]) other := by
        intro other
        rw [collector_eq]
        exact others_count follows vote other
      have next_admits : next.voteCollector.AdmitsAll next.validatorSet rest := by
        rw [collector_eq, set_eq]
        exact rest_admits
      obtain ⟨result, final, returns, result_eq, final_follows, final_collector, final_set⟩ :=
        induction next_follows next_admits
          ((if core.validatorSet.hasQuorum (insert vote.voterId (core.voteCollector.others vote)) =
              true then some (certificate vote (core.voteCollector.others vote)) else none).or qc)
      refine ⟨result, final, ?_, ?_, ?_, ?_, final_set.trans set_eq⟩
      · simp only [acceptVotes, accepted, returns]
      · rw [result_eq, lastCompleting, set_eq, Option.map_or, Option.map_or, Option.or_assoc]
        congr 2
        simp only [Completes, ← follows]
        split <;> rfl
      · simpa using final_follows
      · rw [final_collector, collector_eq]
        rfl

theorem admitsAll_of_acceptVotes {core final : ConsensusCore H} {votes : List (Vote H)}
    {qc result : Option (QC H)} (returns : core.acceptVotes votes qc = (.ok result, final)) :
    core.voteCollector.AdmitsAll core.validatorSet votes := by
  induction votes generalizing core qc with
  | nil => trivial
  | cons vote rest induction =>
      have set_eq := (identity_perform core (.acceptVote vote)).2.1
      simp only [perform] at set_eq
      rcases accepted : core.acceptVote vote with ⟨outcome, next⟩
      simp only [acceptVotes, accepted] at returns
      cases outcome with
      | error message => cases returns
      | ok formed =>
          have admitted := (acceptVote_eq_ok.mp (congrArg Prod.fst accepted)).1
          have collector_eq := voteCollector_acceptVote admitted
          simp only [perform, accepted] at collector_eq set_eq
          have rest_admits := induction returns
          rw [collector_eq, set_eq] at rest_admits
          exact ⟨admitted, rest_admits⟩

/-! ## What a phase returns -/

/-- The votes that a phase accepts, in order: the leader's own one and those of the responses. -/
def phaseVotes (core : ConsensusCore H) (proposal : Proposal H) (phase : VotePhase)
    (firstId : String) (others : List (String × PhaseResponse H)) : List (Vote H) :=
  (if core.localValidatorId ∈ firstId :: others.map Prod.fst then
    [core.localVote proposal phase] else []) ++ others.filterMap fun other => other.2.vote?

end ConsensusCore

omit [DecidableEq H] [Crypto H] in
theorem remoteVotes_eq_ok {phase : VotePhase} {others : List (String × PhaseResponse H)}
    {votes : List (Vote H)} :
    remoteVotes phase others = .ok votes ↔
      (∀ other ∈ others, other.2.vote? ≠ none) ∧
        votes = others.filterMap fun other => other.2.vote? := by
  induction others generalizing votes with
  | nil => simp [remoteVotes, eq_comm]
  | cons other rest induction =>
      obtain ⟨peerId, response⟩ := other
      simp only [remoteVotes, bind_eq_ok, PhaseResponse.read_eq_ok, induction, pure_eq_ok,
        List.forall_mem_cons, List.filterMap_cons]
      cases response.vote? with
      | none => simp
      | some vote => simp [eq_comm]

namespace ConsensusCore

open VoteCollector

variable {core : ConsensusCore H} {proposal : Proposal H} {phase : VotePhase}
  {proposalJustifyQc observedQc : Option (QC H)} {firstId : String}
  {others : List (String × PhaseResponse H)}

/-- The leader votes, every participant answers with a vote, and all votes pass the checks. -/
structure PhaseRuns (core : ConsensusCore H) (proposal : Proposal H) (phase : VotePhase)
    (proposalJustifyQc observedQc : Option (QC H)) (firstId : String)
    (others : List (String × PhaseResponse H)) : Prop where
  granted : (core.observeQc observedQc).Grants proposal proposalJustifyQc phase
  answered : ∀ other ∈ others, other.2.vote? ≠ none
  admitted : core.voteCollector.AdmitsAll core.validatorSet
    (core.phaseVotes proposal phase firstId others)

/-- The last vote of a phase whose target then has a quorum of signers. -/
def lastOfPhase (core : ConsensusCore H) (proposal : Proposal H) (phase : VotePhase)
    (firstId : String) (others : List (String × PhaseResponse H)) : Option (Vote H) :=
  core.voteCollector.lastCompleting core.validatorSet []
    (core.phaseVotes proposal phase firstId others)

theorem makeVote_of_grants (granted : core.Grants proposal proposalJustifyQc phase) :
    ∃ voted, core.makeVote proposal proposalJustifyQc phase =
        (.ok (core.localVote proposal phase), voted) ∧
      voted.voteCollector = core.voteCollector ∧
      voted.localValidatorId = core.localValidatorId ∧ voted.validatorSet = core.validatorSet :=
  ⟨_, makeVote_of_checked granted.1 granted.2, by simp, by simp, by simp⟩

/-- A phase in which all goes well returns a certificate for the target of the last vote that
completes a quorum. -/
theorem drivePhase_of_runs
    (runs : core.PhaseRuns proposal phase proposalJustifyQc observedQc firstId others) :
    ∃ result final, core.drivePhaseOverNetwork proposal phase proposalJustifyQc observedQc firstId
        others = (demand result ("missing_qc:" ++ phase.value), final) ∧
      result.map QC.target =
        (core.lastOfPhase proposal phase firstId others).map Vote.target ∧
      (∀ vote, final.voteCollector.others vote =
        core.voteCollector.countedBy (core.phaseVotes proposal phase firstId others) vote) ∧
      final.validatorSet = core.validatorSet := by
  obtain ⟨granted, answered, admitted⟩ := runs
  obtain ⟨voted, makes, voted_collector, voted_id, voted_set⟩ := makeVote_of_grants granted
  rw [voteCollector_observeQc] at voted_collector
  rw [localValidatorId_observeQc] at voted_id
  rw [validatorSet_observeQc] at voted_set
  have local_eq : (core.observeQc observedQc).localVote proposal phase =
      core.localVote proposal phase := by
    simp [localVote]
  obtain ⟨local_admits, remote_admits⟩ := admitsAll_append.mp admitted
  rw [← voted_collector, ← voted_set, ← voted_id] at local_admits
  obtain ⟨formed, counted, counts, formed_eq, counted_follows, counted_collector, counted_set⟩ :=
    acceptVotes_of_admitsAll (fun vote => (countedBy_nil voted.voteCollector vote).symm)
      local_admits none
  rw [← voted_collector, ← voted_set, ← voted_id, ← counted_collector, ← counted_set]
    at remote_admits
  obtain ⟨result, final, returns, result_eq, final_follows, -, final_set⟩ :=
    acceptVotes_of_admitsAll counted_follows remote_admits formed
  refine ⟨result, final, ?_, ?_, ?_, ?_⟩
  · simp only [drivePhaseOverNetwork, makes, local_eq, counts,
      remoteVotes_eq_ok.mpr ⟨answered, rfl⟩, returns]
    cases result <;> rfl
  · rw [result_eq, formed_eq, lastOfPhase, phaseVotes, lastCompleting_append, voted_collector,
      counted_set, voted_set, voted_id, Option.map_or]
    simp
  · intro vote
    rw [final_follows, voted_collector, voted_id]
    rfl
  · rw [final_set, counted_set, voted_set]

/-- A phase only returns when all goes well. -/
theorem runs_of_drivePhase {qc : QC H}
    (returns : (core.drivePhaseOverNetwork proposal phase proposalJustifyQc observedQc firstId
      others).1 = .ok qc) :
    core.PhaseRuns proposal phase proposalJustifyQc observedQc firstId others := by
  cases makes : (core.observeQc observedQc).makeVote proposal proposalJustifyQc phase with
  | mk outcome voted =>
      simp only [drivePhaseOverNetwork, makes] at returns
      cases outcome with
      | error message => cases returns
      | ok localVote =>
          obtain ⟨granted, vote_eq⟩ := Session.emitted_makeVote.mp
            (show (core.observeQc observedQc).emitted (.makeVote proposal proposalJustifyQc phase) =
              some localVote by simp [emitted, makes, Except.toOption])
          obtain ⟨voted', makes', voted_collector, voted_id, voted_set⟩ :=
            makeVote_of_grants granted
          obtain ⟨-, rfl⟩ := Prod.mk.inj (makes.symm.trans makes')
          rw [voteCollector_observeQc] at voted_collector
          rw [localValidatorId_observeQc] at voted_id
          rw [validatorSet_observeQc] at voted_set
          have local_eq : localVote = core.localVote proposal phase := by
            rw [vote_eq]
            simp [ConsensusCore.localVote]
          simp only at returns
          split at returns
          · cases returns
          next formed counted counts =>
            split at returns
            · cases returns
            next votes answers =>
              obtain ⟨answered, rfl⟩ := remoteVotes_eq_ok.mp answers
              split at returns
              · cases returns
              · cases returns
              next last final accepts =>
                have local_admits := admitsAll_of_acceptVotes counts
                have remote_admits := admitsAll_of_acceptVotes accepts
                obtain ⟨_, _, counts', -, -, counted_collector, counted_set⟩ :=
                  acceptVotes_of_admitsAll
                    (fun vote => (countedBy_nil voted.voteCollector vote).symm) local_admits none
                obtain ⟨-, rfl⟩ := Prod.mk.inj (counts.symm.trans counts')
                rw [counted_collector, counted_set] at remote_admits
                have admits := admitsAll_append.mpr ⟨local_admits, remote_admits⟩
                rw [voted_collector, voted_set, voted_id, local_eq] at admits
                exact ⟨granted, answered, admits⟩

theorem drivePhase_eq_ok {qc : QC H}
    (returns : (core.drivePhaseOverNetwork proposal phase proposalJustifyQc observedQc firstId
      others).1 = .ok qc) :
    core.PhaseRuns proposal phase proposalJustifyQc observedQc firstId others ∧
      ∃ last, core.lastOfPhase proposal phase firstId others = some last ∧
        qc.target = last.target := by
  have runs := runs_of_drivePhase returns
  obtain ⟨result, final, returned, target_eq, -⟩ := drivePhase_of_runs runs
  rw [returned] at returns
  obtain rfl := demand_eq_ok.mp returns
  obtain ⟨last, found, same⟩ := Option.map_eq_some_iff.mp target_eq.symm
  exact ⟨runs, last, found, same.symm⟩

/-- Whenever the phase returns a certificate, it is for the driven target. -/
def PhaseSound (core : ConsensusCore H) (proposal : Proposal H) (phase : VotePhase)
    (proposalJustifyQc observedQc : Option (QC H)) (firstId : String)
    (others : List (String × PhaseResponse H)) : Prop :=
  ∀ qc, (core.drivePhaseOverNetwork proposal phase proposalJustifyQc observedQc firstId
    others).1 = .ok qc → qc.target = proposal.target phase

/-- When all goes well in the phase, the last vote that completes a quorum is for the driven
target. -/
def LastVoteDriven (core : ConsensusCore H) (proposal : Proposal H) (phase : VotePhase)
    (proposalJustifyQc observedQc : Option (QC H)) (firstId : String)
    (others : List (String × PhaseResponse H)) : Prop :=
  core.PhaseRuns proposal phase proposalJustifyQc observedQc firstId others →
    ∀ last ∈ core.lastOfPhase proposal phase firstId others, last.target = proposal.target phase

theorem phaseSound_iff :
    core.PhaseSound proposal phase proposalJustifyQc observedQc firstId others ↔
      core.LastVoteDriven proposal phase proposalJustifyQc observedQc firstId others := by
  constructor
  · intro sound runs last found
    obtain ⟨result, final, returned, target_eq, -⟩ := drivePhase_of_runs runs
    rw [Option.mem_def.mp found] at target_eq
    obtain ⟨qc, rfl, same⟩ := Option.map_eq_some_iff.mp target_eq
    rw [← same]
    exact sound qc (by rw [returned]; rfl)
  · intro driven qc returns
    obtain ⟨runs, last, found, same⟩ := drivePhase_eq_ok returns
    exact same.trans (driven runs last found)

end ConsensusCore

/-! ## A round -/

/-- A participant of a round after the first, with its responses. -/
structure RoundPeer (H : Type) where
  /-- The id of the peer. -/
  peerId : String
  /-- The peer is a consensus peer. -/
  isConsensus : Bool
  /-- What it answers in each phase. -/
  responses : VotePhase → PhaseResponse H

/-- The arguments of `run_mvp_consensus_round`, with what the participants send back. -/
structure RoundRequest (H : Type) where
  /-- The leader, first in the list of peers. -/
  firstId : String
  /-- The other peers. -/
  peers : List (RoundPeer H)
  /-- The number of bundles to pack at most. -/
  limit : Option ℤ
  /-- The time of the block. -/
  timestamp : ℕ

/-- The responses of the participants in a phase. -/
def RoundRequest.others (request : RoundRequest H) (phase : VotePhase) :
    List (String × PhaseResponse H) :=
  request.peers.map fun peer => (peer.peerId, peer.responses phase)

/-- The result of `run_mvp_consensus_round`. -/
structure RoundResult (H : Type) where
  height : ℕ
  blockHash : H
  prepareQcSigners : Signers
  precommitQcSigners : Signers
  commitQcSigners : Signers
  runtimeSnapshot : ConsensusRuntimeSnapshot H

namespace ConsensusHost

/-- The block that a round is run for. -/
def roundBlock (host : ConsensusHost H) (request : RoundRequest H) : BlockV2 H :=
  (host.consensus.chain.previewBlock request.timestamp [] [] request.limit).1

/-- The proposal of a round: the block in the current round of the leader. -/
def roundProposal (host : ConsensusHost H) (request : RoundRequest H) : Proposal H where
  chainId := host.consensus.chain.chainId
  epochId := 0
  height := (host.roundBlock request).header.height
  round := max 1 host.core.pacemaker.currentRound
  proposerId := host.core.localValidatorId
  validatorSetHash := host.core.validatorSet.validatorSetHash
  blockHash := (host.roundBlock request).blockHash
  justifyQcHash := host.core.highestQc.map qcHash
  -- The block is built above the current height.
  height_pos := Nat.succ_pos _
  round_pos := lt_max_of_lt_left one_pos
  proposerId_ne := ValidatorSet.id_ne_of_contains host.core.local_mem

/-- A phase of the round of a host. -/
def drivePhase (host : ConsensusHost H) (request : RoundRequest H) (core : ConsensusCore H)
    (phase : VotePhase) (observedQc : Option (QC H)) : Except String (QC H) × ConsensusCore H :=
  core.drivePhaseOverNetwork (host.roundProposal request) phase host.core.highestQc observedQc
    request.firstId (request.others phase)

/-- The part of `run_mvp_consensus_round` after the commit phase. -/
def finishRound (host : ConsensusHost H) (request : RoundRequest H) (committed : ConsensusCore H)
    (prepareQc precommitQc commitQc : QC H) : Except String (RoundResult H) × ConsensusHost H :=
  match { host with core := committed }.finalizeCommittedBlock (host.roundBlock request)
      commitQc with
  | (.error message, final) => (.error message, final)
  | (.ok _, final) =>
      match final.validateRuntimeState with
      | .error message => (.error message, final)
      | .ok snapshot =>
          (.ok
            { height := (host.roundBlock request).header.height
              blockHash := (host.roundBlock request).blockHash
              prepareQcSigners := prepareQc.signers
              precommitQcSigners := precommitQc.signers
              commitQcSigners := commitQc.signers
              runtimeSnapshot := snapshot },
            final)

/-- `run_mvp_consensus_round`. -/
def runMvpConsensusRound (host : ConsensusHost H) (request : RoundRequest H) :
    Except String (RoundResult H) × ConsensusHost H :=
  if request.firstId ≠ host.core.localValidatorId then
    (.error "local consensus host must be first proposer", host)
  else if host.consensus.chain.bundlePool.snapshot request.limit = [] then
    (.error "no pending bundles to package", host)
  else
    match request.peers.find? fun peer => ¬ peer.isConsensus with
    | some peer => (.error ("peer_not_consensus:" ++ peer.peerId), host)
    | none =>
        match host.drivePhase request host.core .prepare none with
        | (.error message, core) => (.error message, { host with core := core })
        | (.ok prepareQc, prepared) =>
            match host.drivePhase request prepared .precommit (some prepareQc) with
            | (.error message, core) => (.error message, { host with core := core })
            | (.ok precommitQc, precommitted) =>
                match host.drivePhase request precommitted .commit (some precommitQc) with
                | (.error message, core) => (.error message, { host with core := core })
                | (.ok commitQc, committed) =>
                    host.finishRound request committed prepareQc precommitQc commitQc

/-- The phases that a round comes to, with the core and the certificate that each starts from. -/
def phasesOf (host : ConsensusHost H) (request : RoundRequest H) :
    List (ConsensusCore H × VotePhase × Option (QC H)) :=
  (host.core, .prepare, none) ::
    match host.drivePhase request host.core .prepare none with
    | (.error _, _) => []
    | (.ok prepareQc, prepared) =>
        (prepared, .precommit, some prepareQc) ::
          match host.drivePhase request prepared .precommit (some prepareQc) with
          | (.error _, _) => []
          | (.ok precommitQc, precommitted) => [(precommitted, .commit, some precommitQc)]

/-- The round changes the chain or returns. -/
def Commits (host : ConsensusHost H) (request : RoundRequest H) : Prop :=
  (host.runMvpConsensusRound request).2.consensus ≠ host.consensus ∨
    ∃ result, (host.runMvpConsensusRound request).1 = .ok result

/-- Every phase that returns a certificate returns one for its target, and the round commits only a
block for which a quorum of commit votes in the round was counted. -/
structure RoundSound (host : ConsensusHost H) (request : RoundRequest H) : Prop where
  phases : ∀ phase ∈ host.phasesOf request,
    phase.1.PhaseSound (host.roundProposal request) phase.2.1 host.core.highestQc phase.2.2
      request.firstId (request.others phase.2.1)
  quorum : host.Commits request →
    host.core.validatorSet.hasQuorum
      ((host.runMvpConsensusRound request).2.core.voteCollector.signersOf
        (host.roundProposal request).height (host.roundProposal request).round .commit
        (host.roundProposal request).blockHash) = true

/-- In every phase the last vote that completes a quorum is for the driven target. -/
def RoundDriven (host : ConsensusHost H) (request : RoundRequest H) : Prop :=
  ∀ phase ∈ host.phasesOf request, phase.1.LastVoteDriven (host.roundProposal request) phase.2.1
    host.core.highestQc phase.2.2 request.firstId (request.others phase.2.1)

variable {host : ConsensusHost H} {request : RoundRequest H}

theorem core_finishRound {committed : ConsensusCore H} {prepareQc precommitQc commitQc : QC H} :
    (host.finishRound request committed prepareQc precommitQc commitQc).2.core =
      committed.observeQc (some commitQc) := by
  have core_eq := (finalizeCommittedBlock_snd { host with core := committed }
    (host.roundBlock request) commitQc).2
  simp only [finishRound]
  rcases finalized : finalizeCommittedBlock { host with core := committed }
    (host.roundBlock request) commitQc with ⟨_ | snapshot, final⟩
  · rw [finalized] at core_eq
    exact core_eq
  · rw [finalized] at core_eq
    simp only
    cases final.validateRuntimeState <;> exact core_eq

/-- A round that commits has come through its commit phase. -/
theorem exists_commitPhase (commits : host.Commits request) :
    ∃ precommitted observed commitQc committed,
      (precommitted, .commit, observed) ∈ host.phasesOf request ∧
      host.drivePhase request precommitted .commit observed = (.ok commitQc, committed) ∧
      (host.runMvpConsensusRound request).2.core = committed.observeQc (some commitQc) := by
  have refused : ∀ message core,
      host.runMvpConsensusRound request ≠ (.error message, { host with core := core }) := by
    intro message core run_eq
    rcases commits with changes | ⟨result, returns⟩
    · exact changes (by rw [run_eq])
    · rw [run_eq] at returns
      cases returns
  simp only [runMvpConsensusRound] at refused ⊢
  split_ifs at refused ⊢
  · exact absurd rfl (refused _ host.core)
  · exact absurd rfl (refused _ host.core)
  split at refused
  · exact absurd rfl (refused _ host.core)
  next all_consensus =>
    rcases prepares : host.drivePhase request host.core .prepare none with ⟨_ | prepareQc, prepared⟩
    · simp only [prepares] at refused
      exact absurd rfl (refused _ prepared)
    rcases precommits : host.drivePhase request prepared .precommit (some prepareQc) with
      ⟨_ | precommitQc, precommitted⟩
    · simp only [prepares, precommits] at refused
      exact absurd rfl (refused _ precommitted)
    rcases commits : host.drivePhase request precommitted .commit (some precommitQc) with
      ⟨_ | commitQc, committed⟩
    · simp only [prepares, precommits, commits] at refused
      exact absurd rfl (refused _ committed)
    refine ⟨precommitted, some precommitQc, commitQc, committed, ?_, commits, ?_⟩
    · simp [phasesOf, prepares, precommits]
    · simp only [precommits, commits, core_finishRound]

theorem validatorSet_drivePhase {core next : ConsensusCore H} {phase : VotePhase}
    {observed : Option (QC H)} {qc : QC H}
    (returns : host.drivePhase request core phase observed = (.ok qc, next)) :
    next.validatorSet = core.validatorSet := by
  have runs := runs_of_drivePhase (congrArg Prod.fst returns)
  obtain ⟨result, final, returned, -, -, set_eq⟩ := drivePhase_of_runs runs
  obtain ⟨-, rfl⟩ := Prod.mk.inj (returns.symm.trans returned)
  exact set_eq

theorem validatorSet_phasesOf {phase : ConsensusCore H × VotePhase × Option (QC H)}
    (mem : phase ∈ host.phasesOf request) : phase.1.validatorSet = host.core.validatorSet := by
  simp only [phasesOf, List.mem_cons] at mem
  rcases mem with rfl | mem
  · rfl
  rcases prepares : host.drivePhase request host.core .prepare none with ⟨_ | prepareQc, prepared⟩
  · simp [prepares] at mem
  have prepared_set := validatorSet_drivePhase prepares
  simp only [prepares, List.mem_cons] at mem
  rcases mem with rfl | mem
  · exact prepared_set
  rcases precommits : host.drivePhase request prepared .precommit (some prepareQc) with
    ⟨_ | precommitQc, precommitted⟩
  · simp [precommits] at mem
  simp only [precommits, List.mem_singleton] at mem
  rw [mem]
  exact (validatorSet_drivePhase precommits).trans prepared_set

theorem hasQuorum_of_lastOfPhase {core : ConsensusCore H} {proposal : Proposal H}
    {phase : VotePhase} {firstId : String} {others : List (String × PhaseResponse H)}
    {last : Vote H} (found : core.lastOfPhase proposal phase firstId others = some last) :
    core.validatorSet.hasQuorum (core.voteCollector.countedBy
      (core.phaseVotes proposal phase firstId others) last) = true := by
  obtain ⟨before, after, split, completes⟩ := VoteCollector.lastCompleting_eq_some found
  rw [split]
  refine ValidatorSet.hasQuorum_mono (fun signer mem => ?_) completes
  rw [VoteCollector.mem_countedBy]
  rw [Finset.mem_insert, VoteCollector.mem_countedBy] at mem
  rcases mem with rfl | counted | ⟨other, other_mem, same⟩
  · exact .inr ⟨last, by simp, rfl, rfl⟩
  · exact .inl counted
  · exact .inr ⟨other, List.mem_append_left _ other_mem, same⟩

theorem roundSound_iff (host : ConsensusHost H) (request : RoundRequest H) :
    host.RoundSound request ↔ host.RoundDriven request := by
  constructor
  · exact fun sound phase mem => phaseSound_iff.mp (sound.phases phase mem)
  · intro driven
    refine ⟨fun phase mem => phaseSound_iff.mpr (driven phase mem), fun commits => ?_⟩
    obtain ⟨core, observed, qc, committed, mem, returns, core_eq⟩ := exists_commitPhase commits
    obtain ⟨runs, last, found, -⟩ := drivePhase_eq_ok (congrArg Prod.fst returns)
    have target_eq := driven _ mem runs last found
    obtain ⟨_, _, returned, -, follows, -⟩ := drivePhase_of_runs runs
    obtain ⟨-, rfl⟩ := Prod.mk.inj (returns.symm.trans returned)
    have quorum := hasQuorum_of_lastOfPhase found
    rw [← follows, validatorSet_phasesOf mem, VoteCollector.others] at quorum
    obtain ⟨height_eq, round_eq, phase_eq, block_eq⟩ := by
      simpa [Vote.target, Proposal.target] using target_eq
    rw [core_eq, voteCollector_observeQc, ← height_eq, ← round_eq, ← phase_eq, ← block_eq]
    exact quorum

theorem currentRound_acceptVote_le (core : ConsensusCore H) (vote : Vote H) :
    (core.perform (.acceptVote vote)).pacemaker.currentRound ≤
      max core.pacemaker.currentRound (vote.round + 1) := by
  rw [pacemaker_perform]
  cases formed : core.observed (.acceptVote vote) with
  | none => exact le_max_left _ _
  | some qc =>
      obtain ⟨rfl, -⟩ := observed_acceptVote core formed
      exact (PacemakerState.afterQc_some _ _).1.le

open Session SymbolicDigest

/-- The first of two validators after both have voted to commit the first block. -/
def committedCore : ConsensusCore SymbolicDigest :=
  ((fresh 1 0 "a" pairSet pairSet_contains).perform
    (.acceptVote (pairVote 1 "a" CoreSystem.a_ne))).perform (.acceptVote (pairVote 1 "b" b_ne))

/-- The proposal of the next height and round. -/
def nextProposal : Proposal SymbolicDigest :=
  ⟨1, 0, 2, 2, "a", pairSet.validatorSetHash, .filled 2, none, Nat.two_pos, Nat.two_pos,
    CoreSystem.a_ne⟩

theorem voteCollector_committedCore :
    committedCore.voteCollector = ((VoteCollector.empty SymbolicDigest).count
      (pairVote 1 "a" (by simp))).count (pairVote 1 "b" (by simp)) := by
  have first := voteCollector_acceptVote (pairVote_admitted 1)
  have set_eq := (identity_perform (fresh 1 0 "a" pairSet pairSet_contains)
    (.acceptVote (pairVote 1 "a" (by simp)))).2.1
  rw [committedCore, voteCollector_acceptVote, first]
  · rfl
  · exact ⟨by rw [set_eq]; rfl, by rw [set_eq]; rfl, by rw [first]; exact nofun⟩

theorem currentRound_committedCore : committedCore.pacemaker.currentRound ≤ 2 := by
  have first := currentRound_acceptVote_le (fresh 1 0 "a" pairSet pairSet_contains)
    (pairVote 1 "a" (by simp))
  exact (currentRound_acceptVote_le _ _).trans (max_le first le_rfl)

theorem identity_committedCore :
    committedCore.localValidatorId = "a" ∧ committedCore.validatorSet = pairSet ∧
      committedCore.chainId = 1 ∧ committedCore.epochId = 0 := by
  have first := identity_perform (fresh 1 0 "a" pairSet pairSet_contains)
    (.acceptVote (pairVote 1 "a" (by simp)))
  obtain ⟨local_eq, set_eq, chain_eq, epoch_eq⟩ := identity_perform
    ((fresh 1 0 "a" pairSet pairSet_contains).perform (.acceptVote (pairVote 1 "a" (by simp))))
    (.acceptVote (pairVote 1 "b" (by simp)))
  exact ⟨local_eq.trans first.1, set_eq.trans first.2.1, chain_eq.trans first.2.2.1,
    epoch_eq.trans first.2.2.2⟩

theorem grants_nextProposal : committedCore.Grants nextProposal none .prepare := by
  obtain ⟨-, set_eq, chain_eq, epoch_eq⟩ := identity_committedCore
  constructor
  · refine checkProposal_eq_ok.mpr ⟨⟨chain_eq.symm, epoch_eq.symm⟩, ?_, ?_, ?_, nofun, nofun⟩
    · change pairSet.validatorSetHash = committedCore.validatorSet.validatorSetHash
      rw [set_eq]
    · exact (congrArg (·.contains "a") set_eq).trans rfl
    · exact currentRound_committedCore.trans (Nat.le_succ 2)
  · have choices : committedCore.localVoteChoice = ∅ :=
      (localVoteChoice_perform _ _ rfl).trans (localVoteChoice_perform _ _ rfl)
    exact fun existing mem => by simp [choices] at mem

end ConsensusHost

end EZChain
