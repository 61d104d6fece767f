import EZChain.Consensus.RejectedProposals
import EZChain.Consensus.TimeoutCertificates
import EZChain.Host.RoundDriver
import EZChain.Library.Broadcast

/-!
# Rounds within one process

The cores of several validators live in one process, and a round is driven by calling them in turn:
all make their vote for a phase, then every vote is handed to every core.  A drive over a quorum
commits the proposal, whatever part of the validators earlier drives of it went over.
-/

namespace EZChain

open Checks ConsensusCore Broadcast

variable {H ι : Type} [DecidableEq H] [Crypto H] [DecidableEq ι]

/-- `ConsensusRoundResult`. -/
structure ConsensusRoundResult (H : Type) where
  /-- The certificate of the first phase. -/
  prepareQc : QC H
  /-- The certificate of the second phase. -/
  precommitQc : QC H
  /-- The certificate of the last phase. -/
  commitQc : QC H

/-- `_drive_vote_phase`. -/
def driveVotePhase (cores : ι → ConsensusCore H) (proposal : Proposal H)
    (justifyQc : Option (QC H)) (participants : List ι) (phase : VotePhase) :
    Except String (QC H) × (ι → ConsensusCore H) :=
  match collect (fun core => core.makeVote proposal justifyQc phase) cores participants with
  | (.error message, voted) => (.error message, voted)
  | (.ok votes, voted) =>
      match deliver (fun vote core => core.acceptVote vote) voted (votes ×ˢ participants) none with
      | (.error message, final) => (.error message, final)
      | (.ok none, final) => (.error ("failed to form " ++ phase.value ++ " qc"), final)
      | (.ok (some qc), final) => (.ok qc, final)

def driveSingleRoundCommit (cores : ι → ConsensusCore H) (proposal : Proposal H)
    (justifyQc : Option (QC H)) (participants : List ι) :
    Except String (ConsensusRoundResult H) × (ι → ConsensusCore H) :=
  match driveVotePhase cores proposal justifyQc participants .prepare with
  | (.error message, prepared) => (.error message, prepared)
  | (.ok prepareQc, prepared) =>
      match driveVotePhase prepared proposal justifyQc participants .precommit with
      | (.error message, precommitted) => (.error message, precommitted)
      | (.ok precommitQc, precommitted) =>
          match driveVotePhase precommitted proposal justifyQc participants .commit with
          | (.error message, committed) => (.error message, committed)
          | (.ok commitQc, committed) =>
              (.ok { prepareQc := prepareQc, precommitQc := precommitQc, commitQc := commitQc },
                committed)

/-! ## Cores that go along with a proposal -/

/-- The proposal is by a member, and its certificate is the given one, of an earlier round. -/
structure Proposal.JustifiedBy (proposal : Proposal H) (validatorSet : ValidatorSet)
    (justifyQc : Option (QC H)) : Prop where
  sameSet : proposal.validatorSetHash = validatorSet.validatorSetHash
  proposer : validatorSet.contains proposal.proposerId = true
  named : ∀ hash ∈ proposal.justifyQcHash, ∃ justify ∈ justifyQc, qcHash justify = hash ∧
    justify.validatorSetHash = validatorSet.validatorSetHash
  earlier : ∀ justify ∈ justifyQc, justify.round < proposal.round

namespace ConsensusCore

/-- The core may vote for the proposal in every phase, and it has counted no vote for another block
of the round. -/
structure Willing (core : ConsensusCore H) (validatorSet : ValidatorSet) (proposal : Proposal H)
    (justifyQc : Option (QC H)) : Prop where
  set : core.validatorSet = validatorSet
  chain : proposal.chainId = core.chainId ∧ proposal.epochId = core.epochId
  current : core.pacemaker.currentRound ≤ proposal.round + 1
  locked_le : ∀ locked ∈ core.lockedQc, locked.round ≤ proposal.round
  unlocked : LockPasses core.lockedQc justifyQc proposal.blockHash
  voted : ∀ phase,
    ∀ existing ∈ core.localVoteChoice.get? (proposal.height, proposal.round, phase),
      existing = proposal.blockHash
  counted : ∀ phase signer, ∀ existing ∈ core.voteCollector.voteChoiceBySigner.get?
    (proposal.height, proposal.round, phase, signer), existing = proposal.blockHash

/-- What a core has reached when a phase of the proposal was completed. -/
def Reached (core : ConsensusCore H) (proposal : Proposal H) : VotePhase → Prop
  | .prepare => proposal.round < core.pacemaker.currentRound
  | .precommit => ∃ locked ∈ core.lockedQc,
      locked.round = proposal.round ∧ locked.blockHash = proposal.blockHash
  | .commit => proposal.round ≤ core.pacemaker.lastDecidedRound

variable {core : ConsensusCore H} {validatorSet : ValidatorSet} {proposal : Proposal H}
  {justifyQc : Option (QC H)} {phase : VotePhase}

/-! ## Observed certificates -/

/-- A certificate that a core observes during a drive of the proposal. -/
def Harmless (proposal : Proposal H) (justifyQc : Option (QC H)) (qc : QC H) : Prop :=
  qc ∈ justifyQc ∨ qc.round = proposal.round ∧ qc.blockHash = proposal.blockHash

omit [DecidableEq H] in
theorem Harmless.round_le {qc : QC H} (harmless : Harmless proposal justifyQc qc)
    (justified : proposal.JustifiedBy validatorSet justifyQc) : qc.round ≤ proposal.round := by
  rcases harmless with given | ⟨round_eq, -⟩
  · exact (justified.earlier qc given).le
  · exact round_eq.le

/-- A call that observes harmless certificates and records votes for the block only keeps the core
willing. -/
theorem Willing.perform (willing : core.Willing validatorSet proposal justifyQc)
    (justified : proposal.JustifiedBy validatorSet justifyQc) {call : Call H}
    (harmless : ∀ qc ∈ core.observed call, Harmless proposal justifyQc qc)
    (no_tc : core.observedTc call = none)
    (voted : ∀ phase, ∀ existing ∈
      (core.perform call).localVoteChoice.get? (proposal.height, proposal.round, phase),
        existing = proposal.blockHash)
    (counted : ∀ phase signer, ∀ existing ∈
      (core.perform call).voteCollector.voteChoiceBySigner.get?
        (proposal.height, proposal.round, phase, signer), existing = proposal.blockHash) :
    (core.perform call).Willing validatorSet proposal justifyQc := by
  obtain ⟨-, set_eq, chain_eq, epoch_eq⟩ := identity_perform core call
  have pacemaker_eq := pacemaker_perform core call
  have locked_eq := lockedQc_perform core call
  rw [no_tc] at pacemaker_eq
  constructor
  case set => exact set_eq.trans willing.set
  case chain =>
    rw [chain_eq, epoch_eq]
    exact willing.chain
  case current =>
    rw [pacemaker_eq]
    cases observed_eq : core.observed call with
    | none => exact willing.current
    | some qc =>
        have round_le := (harmless qc observed_eq).round_le justified
        change ((core.pacemaker.afterQc (some qc)).afterTc none).currentRound ≤ _
        apply (PacemakerState.afterQc_some core.pacemaker qc).1.le.trans
        exact max_le willing.current (Nat.succ_le_succ round_le)
  case locked_le =>
    intro locked mem
    rw [locked_eq] at mem
    rcases mem_lockAfter mem with before | observed
    · exact willing.locked_le locked before
    · exact (harmless locked observed).round_le justified
  case unlocked =>
    intro locked mem justify given block_ne justify_ne
    rw [locked_eq] at mem
    rcases mem_lockAfter mem with before | observed
    · exact willing.unlocked locked before justify given block_ne justify_ne
    · rcases harmless locked observed with same | ⟨-, certifies⟩
      · exact absurd (congrArg QC.blockHash (Option.mem_unique given same)) justify_ne
      · exact absurd certifies.symm block_ne
  case voted => exact voted
  case counted => exact counted

/-- What a core has reached for the proposal is kept by such a call. -/
theorem Reached.perform (reached : core.Reached proposal phase)
    (justified : proposal.JustifiedBy validatorSet justifyQc) {call : Call H}
    (harmless : ∀ qc ∈ core.observed call, Harmless proposal justifyQc qc) :
    (core.perform call).Reached proposal phase := by
  have later := atMost_perform core call
  cases phase with
  | prepare => exact Nat.lt_of_lt_of_le reached later.currentRound
  | commit => exact Nat.le_trans reached later.lastDecidedRound
  | precommit =>
      obtain ⟨locked, mem, round_eq, certifies⟩ := reached
      simp only [Reached, lockedQc_perform]
      cases observed_eq : core.observed call with
      | none => exact ⟨locked, mem, round_eq, certifies⟩
      | some qc =>
          simp only [lockAfter]
          split
          next moves =>
            -- The justifying certificate is older than the lock, so it is for the block.
            refine ⟨qc, rfl, ?_⟩
            rcases harmless qc observed_eq with given | same
            · have older := justified.earlier qc given
              have newer := moves.2 locked mem
              omega
            · exact same
          next => exact ⟨locked, mem, round_eq, certifies⟩

/-- A core has reached the phase of the certificate that it observes for the proposal. -/
theorem Willing.reached (willing : core.Willing validatorSet proposal justifyQc) {call : Call H}
    {qc : QC H} (observed_eq : core.observed call = some qc)
    (target : qc.target = proposal.target phase) : (core.perform call).Reached proposal phase := by
  simp only [QC.target, Proposal.target, Prod.mk.injEq] at target
  obtain ⟨-, round_eq, phase_eq, block_eq⟩ := target
  have pacemaker_eq := pacemaker_perform core call
  have later := PacemakerState.atMost_afterTc (core.pacemaker.afterQc (core.observed call))
    (core.observedTc call)
  rw [← pacemaker_eq, observed_eq] at later
  obtain ⟨current, -, -, -, decided⟩ := PacemakerState.afterQc_some core.pacemaker qc
  cases phase with
  | prepare =>
      have ahead := le_max_right core.pacemaker.currentRound (qc.round + 1)
      rw [← current, round_eq] at ahead
      exact Nat.lt_of_succ_le (ahead.trans later.currentRound)
  | precommit =>
      simp only [Reached, lockedQc_perform, observed_eq]
      have moves : qc.phase = .precommit ∧ ∀ locked ∈ core.lockedQc, locked.round ≤ qc.round :=
        ⟨phase_eq, fun locked mem => (willing.locked_le locked mem).trans round_eq.ge⟩
      exact ⟨qc, if_pos moves, round_eq, block_eq⟩
  | commit =>
      rw [if_pos phase_eq] at decided
      have reached := le_max_right core.pacemaker.lastDecidedRound qc.round
      rw [← decided, round_eq] at reached
      exact Nat.le_trans reached later.lastDecidedRound

/-! ## One call -/

/-- The vote is a member's vote for the proposal. -/
structure Supports (validatorSet : ValidatorSet) (proposal : Proposal H) (phase : VotePhase)
    (vote : Vote H) : Prop where
  chain : vote.chainId = proposal.chainId ∧ vote.epochId = proposal.epochId
  target : vote.target = proposal.target phase
  sameSet : vote.validatorSetHash = validatorSet.validatorSetHash
  member : validatorSet.contains vote.voterId = true

/-- A certificate of the validators for the proposal. -/
structure Backs (validatorSet : ValidatorSet) (proposal : Proposal H) (phase : VotePhase)
    (qc : QC H) : Prop where
  chain : qc.chainId = proposal.chainId ∧ qc.epochId = proposal.epochId
  target : qc.target = proposal.target phase
  sameSet : qc.validatorSetHash = validatorSet.validatorSetHash
  quorum : validatorSet.hasQuorum qc.signers.ids.toFinset = true

/-- The signers that the core has counted for the proposal in a phase. -/
def backers (core : ConsensusCore H) (proposal : Proposal H) (phase : VotePhase) : Finset String :=
  core.voteCollector.signersOf proposal.height proposal.round phase proposal.blockHash

/-- The core is willing as before, and it has kept what it reached and counted. -/
structure Follows (validatorSet : ValidatorSet) (proposal : Proposal H) (justifyQc : Option (QC H))
    (core next : ConsensusCore H) : Prop where
  willing : next.Willing validatorSet proposal justifyQc
  vote : next.localVote proposal = core.localVote proposal
  reached : ∀ phase, core.Reached proposal phase → next.Reached proposal phase

omit [DecidableEq H] in
theorem Willing.follows_self (willing : core.Willing validatorSet proposal justifyQc) :
    Follows validatorSet proposal justifyQc core core :=
  ⟨willing, rfl, fun _ => id⟩

omit [DecidableEq H] in
theorem Follows.trans {first second third : ConsensusCore H}
    (left : Follows validatorSet proposal justifyQc first second)
    (right : Follows validatorSet proposal justifyQc second third) :
    Follows validatorSet proposal justifyQc first third where
  willing := right.willing
  vote := right.vote.trans left.vote
  reached phase holds := right.reached phase (left.reached phase holds)

theorem follows_perform (justified : proposal.JustifiedBy validatorSet justifyQc)
    {call : Call H} (harmless : ∀ qc ∈ core.observed call, Harmless proposal justifyQc qc)
    (kept : (core.perform call).Willing validatorSet proposal justifyQc) :
    Follows validatorSet proposal justifyQc core (core.perform call) where
  willing := kept
  vote := by
    obtain ⟨local_eq, set_eq, chain_eq, epoch_eq⟩ := identity_perform core call
    funext phase
    simp only [localVote, Vote.mk.injEq, true_and, and_true]
    rw [set_eq]
    exact ⟨chain_eq, epoch_eq, local_eq, rfl⟩
  reached _ holds := holds.perform justified harmless

/-- A willing core votes for the proposal. -/
theorem Willing.makeVote (willing : core.Willing validatorSet proposal justifyQc)
    (justified : proposal.JustifiedBy validatorSet justifyQc) (phase : VotePhase) :
    ∃ voted, core.makeVote proposal justifyQc phase = (.ok (core.localVote proposal phase), voted) ∧
      Follows validatorSet proposal justifyQc core voted := by
  have acceptable : core.Acceptable proposal justifyQc := by
    constructor
    case chain => exact willing.chain.1
    case epoch => exact willing.chain.2
    case validatorSet => exact willing.set ▸ justified.sameSet
    case proposer => exact willing.set ▸ justified.proposer
    case fresh => exact willing.current
    case freshJustify => exact fun justify given => (justified.earlier justify given).le
    case justify => exact willing.set ▸ justified.named
    case lock => exact willing.unlocked
  have checked := (core.checkProposal_observeQc_eq_ok proposal justifyQc).mpr acceptable
  have made := makeVote_of_checked checked (willing.voted phase)
  have harmless : ∀ qc ∈ core.observed (.makeVote proposal justifyQc phase),
      Harmless proposal justifyQc qc := fun qc given => .inl given
  have kept : (core.perform (.makeVote proposal justifyQc phase)).Willing validatorSet proposal
      justifyQc := by
    refine willing.perform justified harmless rfl ?_ ?_
    · simp only [ConsensusCore.perform, made]
      intro other existing mem
      rw [OrderedDict.get?_set] at mem
      split at mem
      · exact (Option.mem_some_iff.mp mem).symm
      · exact willing.voted other existing mem
    · simp only [ConsensusCore.perform, made, voteCollector_observeQc]
      exact willing.counted
  have returned := congrArg Prod.fst made
  exact ⟨core.perform (.makeVote proposal justifyQc phase), Prod.ext returned rfl,
    follows_perform justified harmless kept⟩

/-- A willing core counts every vote for the proposal, and it has completed the phase once the
signers are a quorum. -/
theorem Willing.acceptVote (willing : core.Willing validatorSet proposal justifyQc)
    (justified : proposal.JustifiedBy validatorSet justifyQc) {vote : Vote H}
    (supports : Supports validatorSet proposal phase vote) :
    ∃ result counted, core.acceptVote vote = (.ok result, counted) ∧
      Follows validatorSet proposal justifyQc core counted ∧
      counted.backers proposal phase = insert vote.voterId (core.backers proposal phase) ∧
      (validatorSet.hasQuorum (insert vote.voterId (core.backers proposal phase)) = true →
        counted.Reached proposal phase ∧
          ∃ qc, result = some qc ∧ Backs validatorSet proposal phase qc ∧
            qc.signers.ids.toFinset = insert vote.voterId (core.backers proposal phase)) := by
  have target := supports.target
  simp only [Vote.target, Proposal.target, Prod.mk.injEq] at target
  obtain ⟨height_eq, round_eq, phase_eq, block_eq⟩ := target
  have backers_eq : core.backers proposal phase = core.voteCollector.others vote := by
    rw [backers, VoteCollector.others, height_eq, round_eq, phase_eq, block_eq]
  have admits : core.voteCollector.Admits vote core.validatorSet := by
    rw [willing.set]
    refine ⟨supports.sameSet, supports.member, ?_⟩
    rw [height_eq, round_eq, phase_eq, block_eq]
    exact willing.counted phase vote.voterId
  have returned := acceptVote_eq_ok.mpr ⟨admits, rfl⟩
  rw [willing.set, ← backers_eq] at returned
  have collector_eq := voteCollector_acceptVote admits
  have harmless : ∀ qc ∈ core.observed (.acceptVote vote), Harmless proposal justifyQc qc := by
    intro qc mem
    obtain ⟨rfl, -⟩ := observed_acceptVote core mem
    exact .inr ⟨round_eq, block_eq⟩
  have kept : (core.perform (.acceptVote vote)).Willing validatorSet proposal justifyQc := by
    refine willing.perform justified harmless rfl ?_ ?_
    · rw [localVoteChoice_perform core (.acceptVote vote) rfl]
      exact willing.voted
    · intro other signer existing mem
      rw [collector_eq] at mem
      simp only [VoteCollector.restoreVote, OrderedDict.get?_set] at mem
      split at mem
      · exact (Option.mem_some_iff.mp mem).symm.trans block_eq
      · exact willing.counted other signer existing mem
  refine ⟨_, core.perform (.acceptVote vote), Prod.ext returned rfl,
    follows_perform justified harmless kept, ?_, fun quorum => ?_⟩
  · ext signer
    rw [backers, collector_eq, VoteCollector.mem_signersOf_restoreVote]
    simp [height_eq, round_eq, phase_eq, block_eq, backers]
  · rw [if_pos quorum] at returned
    have observed_eq : core.observed (.acceptVote vote) = some (VoteCollector.certificate vote
        (core.backers proposal phase)) := by
      simp only [observed, returned]
      rfl
    have signers_eq := VoteCollector.toFinset_certificate vote (core.backers proposal phase)
    refine ⟨willing.reached observed_eq supports.target, _, if_pos quorum,
      ⟨supports.chain, supports.target, supports.sameSet, ?_⟩, signers_eq⟩
    rw [signers_eq]
    exact quorum

omit [DecidableEq H] in
theorem Willing.supports (willing : core.Willing validatorSet proposal justifyQc)
    (phase : VotePhase) : Supports validatorSet proposal phase (core.localVote proposal phase) where
  chain := ⟨willing.chain.1.symm, willing.chain.2.symm⟩
  target := rfl
  sameSet := congrArg (fun set : ValidatorSet => set.validatorSetHash) willing.set
  member := willing.set ▸ core.local_mem

end ConsensusCore

/-! ## One phase -/

section Phase

variable {cores : ι → ConsensusCore H} {validatorSet : ValidatorSet} {proposal : Proposal H}
  {justifyQc : Option (QC H)} {participants : List ι} {phase : VotePhase}

/-- The votes of a phase, made by willing cores. -/
def roundVotes (cores : ι → ConsensusCore H) (proposal : Proposal H) (participants : List ι)
    (phase : VotePhase) : List (Vote H) :=
  participants.map fun participant => (cores participant).localVote proposal phase

theorem collect_makeVote (justified : proposal.JustifiedBy validatorSet justifyQc)
    (willing : ∀ participant, (cores participant).Willing validatorSet proposal justifyQc)
    (participants : List ι) (phase : VotePhase) :
    ∃ voted, collect (fun core => core.makeVote proposal justifyQc phase) cores participants =
        (.ok (roundVotes cores proposal participants phase), voted) ∧
      ∀ participant,
        Follows validatorSet proposal justifyQc (cores participant) (voted participant) := by
  refine collect_of_returns (fun participant core =>
    Follows validatorSet proposal justifyQc (cores participant) core) ?_ ?_ participants
  · intro participant core follows
    obtain ⟨voted, made, voted_follows⟩ := follows.willing.makeVote justified phase
    refine ⟨voted, ?_, follows.trans voted_follows⟩
    rw [made, follows.vote]
  · exact fun participant => (willing participant).follows_self

/-- What a participant has done with the votes that it was handed. -/
structure Tallied (validatorSet : ValidatorSet) (proposal : Proposal H) (justifyQc : Option (QC H))
    (phase : VotePhase) (start : ConsensusCore H) (votes : List (Vote H)) (core : ConsensusCore H) :
    Prop where
  follows : Follows validatorSet proposal justifyQc start core
  counted : (votes.map Vote.voterId).toFinset ⊆ core.backers proposal phase
  reached : validatorSet.hasQuorum (votes.map Vote.voterId).toFinset = true →
    core.Reached proposal phase

theorem Tallied.acceptVote (justified : proposal.JustifiedBy validatorSet justifyQc)
    {start core : ConsensusCore H} {votes : List (Vote H)} {vote : Vote H}
    (tallied : Tallied validatorSet proposal justifyQc phase start votes core)
    (supports : Supports validatorSet proposal phase vote) :
    ∃ result counted, core.acceptVote vote = (.ok result, counted) ∧
      Tallied validatorSet proposal justifyQc phase start (votes ++ [vote]) counted ∧
      (validatorSet.hasQuorum ((votes ++ [vote]).map Vote.voterId).toFinset = true →
        ∃ qc, result = some qc ∧ Backs validatorSet proposal phase qc ∧
          ((votes ++ [vote]).map Vote.voterId).toFinset ⊆ qc.signers.ids.toFinset) := by
  obtain ⟨result, counted, accepts, follows, backers_eq, completes⟩ :=
    tallied.follows.willing.acceptVote justified supports
  have voters_eq : ((votes ++ [vote]).map Vote.voterId).toFinset =
      insert vote.voterId (votes.map Vote.voterId).toFinset := by
    rw [List.map_append, List.toFinset_append, Finset.union_comm]
    rfl
  have subset := Finset.insert_subset_insert vote.voterId tallied.counted
  refine ⟨result, counted, accepts, ⟨tallied.follows.trans follows, ?_, ?_⟩, ?_⟩
  · rw [voters_eq, backers_eq]
    exact subset
  · intro quorum
    rw [voters_eq] at quorum
    exact (completes (ValidatorSet.hasQuorum_mono subset quorum)).1
  · intro quorum
    rw [voters_eq] at quorum ⊢
    obtain ⟨-, qc, formed, backs, signers_eq⟩ :=
      completes (ValidatorSet.hasQuorum_mono subset quorum)
    exact ⟨qc, formed, backs, signers_eq ▸ subset⟩

/-- Every vote is counted by every participant it is handed to. -/
theorem deliver_acceptVote (justified : proposal.JustifiedBy validatorSet justifyQc)
    (willing : ∀ participant, (cores participant).Willing validatorSet proposal justifyQc)
    {deliveries : List (Vote H × ι)}
    (supports : ∀ delivery ∈ deliveries, Supports validatorSet proposal phase delivery.1)
    (kept : Option (QC H)) :
    ∃ result final,
      deliver (fun vote core => core.acceptVote vote) cores deliveries kept = (.ok result, final) ∧
      ∀ participant, Tallied validatorSet proposal justifyQc phase (cores participant)
        (handed participant deliveries) (final participant) := by
  have initially : ∀ participant, Tallied validatorSet proposal justifyQc phase
      (cores participant) [] (cores participant) := by
    refine fun participant => ⟨(willing participant).follows_self, Finset.empty_subset _, ?_⟩
    intro quorum
    simp [ValidatorSet.hasQuorum, ValidatorSet.quorumSize] at quorum
  have counts : ∀ participant votes core vote,
      Tallied validatorSet proposal justifyQc phase (cores participant) votes core →
        Supports validatorSet proposal phase vote →
          ∃ result counted, core.acceptVote vote = (.ok result, counted) ∧
            Tallied validatorSet proposal justifyQc phase (cores participant) (votes ++ [vote])
              counted := by
    intro participant votes core vote tallied supports
    obtain ⟨result, counted, accepts, next, -⟩ := tallied.acceptVote justified supports
    exact ⟨result, counted, accepts, next⟩
  obtain ⟨result, final, delivered, tallied⟩ :=
    deliver_of_returns _ _ counts (fun delivery _ => initially delivery.2) supports kept
  exact ⟨result, final, delivered, fun participant => tallied participant (initially participant)⟩

/-- The ids under which participants vote. -/
def voterIds (cores : ι → ConsensusCore H) (participants : List ι) : Finset String :=
  (participants.map fun participant => (cores participant).localValidatorId).toFinset

omit [DecidableEq ι] [DecidableEq H] in
theorem voterIds_of_follows {others : ι → ConsensusCore H}
    (follows : ∀ participant,
      Follows validatorSet proposal justifyQc (cores participant) (others participant))
    (participants : List ι) : voterIds others participants = voterIds cores participants := by
  have same : ∀ participant,
      (others participant).localValidatorId = (cores participant).localValidatorId :=
    fun participant => congrArg Vote.voterId (congrFun (follows participant).vote .prepare)
  simp only [voterIds, same]

omit [DecidableEq ι] [DecidableEq H] in
theorem supports_of_mem_roundVotes
    (willing : ∀ participant, (cores participant).Willing validatorSet proposal justifyQc)
    {vote : Vote H} (mem : vote ∈ roundVotes cores proposal participants phase) :
    Supports validatorSet proposal phase vote := by
  obtain ⟨participant, -, rfl⟩ := List.mem_map.mp mem
  exact (willing participant).supports phase

omit [DecidableEq H] in
theorem voterIds_subset_handed {participant : ι} (listed : participant ∈ participants) :
    voterIds cores participants ⊆
      ((handed participant (roundVotes cores proposal participants phase ×ˢ participants)).map
        Vote.voterId).toFinset := by
  intro voterId mem
  simp only [voterIds, List.mem_toFinset, List.mem_map] at mem
  obtain ⟨voter, voter_listed, rfl⟩ := mem
  have voted : (cores voter).localVote proposal phase ∈
      roundVotes cores proposal participants phase := List.mem_map_of_mem voter_listed
  rw [List.mem_toFinset]
  exact List.mem_map_of_mem (mem_handed_product listed voted)

theorem driveVotePhase_follows (justified : proposal.JustifiedBy validatorSet justifyQc)
    (willing : ∀ participant, (cores participant).Willing validatorSet proposal justifyQc)
    (participants : List ι) (phase : VotePhase) (participant : ι) :
    Follows validatorSet proposal justifyQc (cores participant)
      ((driveVotePhase cores proposal justifyQc participants phase).2 participant) := by
  obtain ⟨voted, collected, voted_follows⟩ := collect_makeVote justified willing participants phase
  have supports : ∀ delivery ∈ roundVotes cores proposal participants phase ×ˢ participants,
      Supports validatorSet proposal phase delivery.1 := fun delivery mem =>
    supports_of_mem_roundVotes willing (List.mem_product.mp mem).1
  obtain ⟨result, final, delivered, tallied⟩ := deliver_acceptVote justified
    (fun other => (voted_follows other).willing) supports none
  have follows := (voted_follows participant).trans (tallied participant).follows
  simp only [driveVotePhase, collected, delivered]
  cases result with
  | none => exact follows
  | some qc => exact follows

/-- A phase that is driven over a quorum returns a certificate which all participants signed, and
completes the phase at all of them. -/
theorem driveVotePhase_of_quorum (justified : proposal.JustifiedBy validatorSet justifyQc)
    (willing : ∀ participant, (cores participant).Willing validatorSet proposal justifyQc)
    (quorum : validatorSet.hasQuorum (voterIds cores participants) = true) (phase : VotePhase) :
    ∃ qc final, driveVotePhase cores proposal justifyQc participants phase = (.ok qc, final) ∧
      Backs validatorSet proposal phase qc ∧
      voterIds cores participants ⊆ qc.signers.ids.toFinset ∧
      (∀ participant,
        Follows validatorSet proposal justifyQc (cores participant) (final participant)) ∧
      ∀ participant ∈ participants, (final participant).Reached proposal phase := by
  obtain ⟨voted, collected, voted_follows⟩ := collect_makeVote justified willing participants phase
  have voted_willing : ∀ other, (voted other).Willing validatorSet proposal justifyQc :=
    fun other => (voted_follows other).willing
  have supports : ∀ delivery ∈ roundVotes cores proposal participants phase ×ˢ participants,
      Supports validatorSet proposal phase delivery.1 := fun delivery mem =>
    supports_of_mem_roundVotes willing (List.mem_product.mp mem).1
  have some_participant : participants ≠ [] := by
    rintro rfl
    simp [voterIds, ValidatorSet.hasQuorum, ValidatorSet.quorumSize] at quorum
  have some_vote : roundVotes cores proposal participants phase ≠ [] := by
    simpa [roundVotes] using some_participant
  obtain ⟨front, vote, last, split, vote_mem, last_mem⟩ :=
    exists_product_eq_concat some_vote some_participant
  have all_handed : ∀ participant ∈ participants, validatorSet.hasQuorum
      ((handed participant (front ++ [(vote, last)])).map Vote.voterId).toFinset = true := by
    intro participant listed
    rw [← split]
    exact ValidatorSet.hasQuorum_mono (voterIds_subset_handed listed) quorum
  rw [split] at supports
  obtain ⟨result, final, delivered, tallied⟩ :=
    deliver_acceptVote justified voted_willing supports none
  obtain ⟨earlier, middle, front_delivered, front_tallied⟩ :=
    deliver_acceptVote justified voted_willing
      (fun delivery mem => supports delivery (List.mem_append_left _ mem)) none
  -- The last delivery completes the phase at the last participant.
  obtain ⟨formed, counted, accepts, -, completes⟩ :=
    (front_tallied last).acceptVote justified (supports_of_mem_roundVotes willing vote_mem)
  have last_quorum := all_handed last last_mem
  rw [handed_concat_self] at last_quorum
  obtain ⟨qc, rfl, backs, signed⟩ := completes last_quorum
  have returned := deliver_concat front_delivered accepts
  rw [returned] at delivered
  obtain ⟨rfl, rfl⟩ := by simpa using delivered
  refine ⟨qc, Function.update middle last counted, ?_, backs, ?_, fun participant => ?_,
    fun participant listed => ?_⟩
  · simp only [driveVotePhase, collected, split, returned]
  · refine Finset.Subset.trans ?_ signed
    rw [← handed_concat_self, ← split]
    exact voterIds_subset_handed last_mem
  · exact (voted_follows participant).trans (tallied participant).follows
  · exact (tallied participant).reached (all_handed participant listed)

end Phase

/-! ## Whole rounds -/

section Round

variable {cores : ι → ConsensusCore H} {validatorSet : ValidatorSet} {proposal : Proposal H}
  {justifyQc : Option (QC H)} {participants : List ι}

/-- A drive leaves willing cores willing, wherever it stops. -/
theorem driveSingleRoundCommit_follows (justified : proposal.JustifiedBy validatorSet justifyQc)
    (willing : ∀ participant, (cores participant).Willing validatorSet proposal justifyQc)
    (participants : List ι) (participant : ι) :
    Follows validatorSet proposal justifyQc (cores participant)
      ((driveSingleRoundCommit cores proposal justifyQc participants).2 participant) := by
  have prepare := driveVotePhase_follows justified willing participants .prepare
  rcases prepares : driveVotePhase cores proposal justifyQc participants .prepare with
    ⟨prepareOutcome, prepared⟩
  simp only [prepares] at prepare
  have precommit := driveVotePhase_follows justified (fun other => (prepare other).willing)
    participants .precommit
  rcases precommits : driveVotePhase prepared proposal justifyQc participants .precommit with
    ⟨precommitOutcome, precommitted⟩
  simp only [precommits] at precommit
  have commit := driveVotePhase_follows justified (fun other => (precommit other).willing)
    participants .commit
  rcases commits : driveVotePhase precommitted proposal justifyQc participants .commit with
    ⟨commitOutcome, committed⟩
  simp only [commits] at commit
  have to_precommit := (prepare participant).trans (precommit participant)
  have to_commit := to_precommit.trans (commit participant)
  cases prepareOutcome with
  | error message => simpa only [driveSingleRoundCommit, prepares] using prepare participant
  | ok prepareQc =>
      cases precommitOutcome with
      | error message =>
          simpa only [driveSingleRoundCommit, prepares, precommits] using to_precommit
      | ok precommitQc =>
          cases commitOutcome with
          | error message =>
              simpa only [driveSingleRoundCommit, prepares, precommits, commits] using to_commit
          | ok commitQc =>
              simpa only [driveSingleRoundCommit, prepares, precommits, commits] using to_commit

/-- The cores after drives of the proposal over some participants each. -/
def afterDrives (cores : ι → ConsensusCore H) (proposal : Proposal H) (justifyQc : Option (QC H))
    (drives : List (List ι)) : ι → ConsensusCore H :=
  drives.foldl (fun current participants =>
    (driveSingleRoundCommit current proposal justifyQc participants).2) cores

theorem afterDrives_follows (justified : proposal.JustifiedBy validatorSet justifyQc)
    (willing : ∀ participant, (cores participant).Willing validatorSet proposal justifyQc)
    (drives : List (List ι)) (participant : ι) :
    Follows validatorSet proposal justifyQc (cores participant)
      (afterDrives cores proposal justifyQc drives participant) := by
  induction drives generalizing cores with
  | nil => exact (willing participant).follows_self
  | cons participants rest induction =>
      have first := driveSingleRoundCommit_follows justified willing participants
      exact (first participant).trans (induction fun other => (first other).willing)

/-- The certificates of a committed round: one for each phase, signed by all participants. -/
structure Commits (validatorSet : ValidatorSet) (proposal : Proposal H) (ids : Finset String)
    (result : ConsensusRoundResult H) : Prop where
  prepare : Backs validatorSet proposal .prepare result.prepareQc
  precommit : Backs validatorSet proposal .precommit result.precommitQc
  commit : Backs validatorSet proposal .commit result.commitQc
  signed : ids ⊆ result.prepareQc.signers.ids.toFinset ∧
    ids ⊆ result.precommitQc.signers.ids.toFinset ∧ ids ⊆ result.commitQc.signers.ids.toFinset

/-- A drive over a quorum of willing cores commits the proposal. -/
theorem driveSingleRoundCommit_of_quorum (justified : proposal.JustifiedBy validatorSet justifyQc)
    (willing : ∀ participant, (cores participant).Willing validatorSet proposal justifyQc)
    (quorum : validatorSet.hasQuorum (voterIds cores participants) = true) :
    ∃ result final,
      driveSingleRoundCommit cores proposal justifyQc participants = (.ok result, final) ∧
      Commits validatorSet proposal (voterIds cores participants) result ∧
      ∀ participant ∈ participants, ∀ phase, (final participant).Reached proposal phase := by
  obtain ⟨prepareQc, prepared, prepares, prepare_backs, prepare_signed, prepare, at_prepare⟩ :=
    driveVotePhase_of_quorum justified willing quorum .prepare
  have prepared_ids : voterIds prepared participants = voterIds cores participants :=
    voterIds_of_follows prepare participants
  obtain ⟨precommitQc, precommitted, precommits, precommit_backs, precommit_signed, precommit,
    at_precommit⟩ := driveVotePhase_of_quorum justified (fun other => (prepare other).willing)
      (prepared_ids ▸ quorum) .precommit
  have precommitted_ids : voterIds precommitted participants = voterIds cores participants :=
    (voterIds_of_follows precommit participants).trans prepared_ids
  obtain ⟨commitQc, committed, commits, commit_backs, commit_signed, commit, at_commit⟩ :=
    driveVotePhase_of_quorum justified (fun other => (precommit other).willing)
      (precommitted_ids ▸ quorum) .commit
  rw [prepared_ids] at precommit_signed
  rw [precommitted_ids] at commit_signed
  refine ⟨⟨prepareQc, precommitQc, commitQc⟩, committed, ?_, ?_, ?_⟩
  · simp only [driveSingleRoundCommit, prepares, precommits, commits]
  · exact ⟨prepare_backs, precommit_backs, commit_backs, prepare_signed, precommit_signed,
      commit_signed⟩
  · intro participant listed phase
    cases phase with
    | prepare =>
        exact ((precommit participant).trans (commit participant)).reached _
          (at_prepare participant listed)
    | precommit => exact (commit participant).reached _ (at_precommit participant listed)
    | commit => exact at_commit participant listed

/-- Once the participants are a quorum the proposal is committed, whichever drives of it went before
and wherever they stopped: all three certificates are formed, and every participant is locked on the
block and has decided the round. -/
theorem commits_after_drives (justified : proposal.JustifiedBy validatorSet justifyQc)
    (willing : ∀ participant, (cores participant).Willing validatorSet proposal justifyQc)
    (drives : List (List ι)) (participants : List ι)
    (quorum : validatorSet.hasQuorum (voterIds cores participants) = true) :
    ∃ result final,
      driveSingleRoundCommit (afterDrives cores proposal justifyQc drives) proposal justifyQc
        participants = (.ok result, final) ∧
      Commits validatorSet proposal (voterIds cores participants) result ∧
      ∀ participant ∈ participants,
        (∃ locked ∈ (final participant).lockedQc,
          locked.round = proposal.round ∧ locked.blockHash = proposal.blockHash) ∧
        proposal.round ≤ (final participant).pacemaker.lastDecidedRound := by
  have follows := afterDrives_follows justified willing drives
  have same_ids := voterIds_of_follows follows participants
  obtain ⟨result, final, driven, commits, reached⟩ := driveSingleRoundCommit_of_quorum justified
    (fun participant => (follows participant).willing) (same_ids ▸ quorum)
  rw [same_ids] at commits
  exact ⟨result, final, driven, commits, fun participant listed =>
    ⟨reached participant listed .precommit, reached participant listed .commit⟩⟩

end Round

/-! ## Timeout rounds -/

def driveTimeoutRound (cores : ι → ConsensusCore H) (height round : ℕ) (participants : List ι) :
    Except String (TC H) × (ι → ConsensusCore H) :=
  match collect (fun core => core.makeTimeoutVote height round) cores participants with
  | (.error message, voted) => (.error message, voted)
  | (.ok votes, voted) =>
      match deliver (fun vote core => core.acceptTimeoutVote vote) voted (votes ×ˢ participants)
        none with
      | (.error message, final) => (.error message, final)
      | (.ok none, final) => (.error "failed to form tc", final)
      | (.ok (some tc), final) => (.ok tc, final)

namespace ConsensusCore

omit [Crypto H] [DecidableEq H] in
theorem localValidatorId_ne (core : ConsensusCore H) : core.localValidatorId ≠ "" :=
  ValidatorSet.id_ne_of_contains core.local_mem

/-- The timeout vote of the local validator. -/
def localTimeoutVote (core : ConsensusCore H) {height round : ℕ}
    (height_pos : 0 < height) (round_pos : 0 < round) : TimeoutVote H where
  chainId := core.chainId
  epochId := core.epochId
  height := height
  round := round
  voterId := core.localValidatorId
  validatorSetHash := core.validatorSet.validatorSetHash
  highQcRound := core.reportedQc.1
  highQcHash := core.reportedQc.2
  height_pos := height_pos
  round_pos := round_pos
  voterId_ne := core.localValidatorId_ne

/-- The core has made no timeout vote for the round and counted none. -/
structure Untimed (core : ConsensusCore H) (validatorSet : ValidatorSet)
    (chainId epochId height round : ℕ) : Prop where
  set : core.validatorSet = validatorSet
  chain : core.chainId = chainId ∧ core.epochId = epochId
  unvoted : (height, round) ∉ core.localTimeoutRounds
  uncounted : core.timeoutVoteCollector.Tallies height round []

/-- What a participant has done with the timeout votes that it was handed. -/
structure TimedOut (core : ConsensusCore H) (validatorSet : ValidatorSet) (height round : ℕ)
    (votes : List (TimeoutVote H)) : Prop where
  set : core.validatorSet = validatorSet
  voted : (height, round) ∈ core.localTimeoutRounds
  tallies : core.timeoutVoteCollector.Tallies height round (votes.map TimeoutVote.report).reverse
  advanced : validatorSet.hasQuorum (votes.map TimeoutVote.voterId).toFinset = true →
    round < core.pacemaker.currentRound

/-- The timeout vote of a member of the chain for the round. -/
structure TimesOut (validatorSet : ValidatorSet) (chainId epochId height round : ℕ)
    (vote : TimeoutVote H) : Prop where
  ofRound : OfRound chainId epochId height round vote
  sameSet : vote.validatorSetHash = validatorSet.validatorSetHash
  member : validatorSet.contains vote.voterId = true

variable {core : ConsensusCore H} {validatorSet : ValidatorSet}
  {chainId epochId height round : ℕ}

omit [DecidableEq H] in
theorem Untimed.makeTimeoutVote
    (untimed : core.Untimed validatorSet chainId epochId height round)
    (height_pos : 0 < height) (round_pos : 0 < round) :
    ∃ voted, core.makeTimeoutVote height round =
        (.ok (core.localTimeoutVote height_pos round_pos), voted) ∧
      voted.TimedOut validatorSet height round [] := by
  have made : core.makeTimeoutVote height round = (.ok (core.localTimeoutVote height_pos round_pos),
      { core with
        localTimeoutRounds := insert (height, round) core.localTimeoutRounds
        store := core.store.saveTimeoutRecord height round core.localValidatorId
          core.reportedQc }) := by
    rw [ConsensusCore.makeTimeoutVote, dif_pos ⟨height_pos, round_pos⟩, if_neg untimed.unvoted]
    rfl
  refine ⟨_, made, untimed.set, Finset.mem_insert_self _ _, untimed.uncounted, fun quorum => ?_⟩
  simp [ValidatorSet.hasQuorum, ValidatorSet.quorumSize] at quorum

omit [DecidableEq H] in
theorem Untimed.timesOut (untimed : core.Untimed validatorSet chainId epochId height round)
    (height_pos : 0 < height) (round_pos : 0 < round) :
    TimesOut validatorSet chainId epochId height round
      (core.localTimeoutVote height_pos round_pos) where
  ofRound := ⟨untimed.chain.1, untimed.chain.2, rfl, rfl⟩
  sameSet := congrArg (fun set : ValidatorSet => set.validatorSetHash) untimed.set
  member := untimed.set ▸ core.local_mem

/-- A vote that contradicts no counted one is counted, and the certificate for all counted votes is
returned and observed once the voters are a quorum. -/
theorem TimedOut.acceptTimeoutVote {votes : List (TimeoutVote H)}
    (timedOut : core.TimedOut validatorSet height round votes) {vote : TimeoutVote H}
    (timesOut : TimesOut validatorSet chainId epochId height round vote)
    (consistent : ∀ earlier ∈ votes, earlier.voterId = vote.voterId →
      earlier.report = vote.report) :
    ∃ result counted, core.acceptTimeoutVote vote = (.ok result, counted) ∧
      counted.TimedOut validatorSet height round (votes ++ [vote]) ∧
      (validatorSet.hasQuorum ((votes ++ [vote]).map TimeoutVote.voterId).toFinset = true →
        ∃ tc, result = some tc ∧ Certifies tc validatorSet chainId epochId height round
          ((votes ++ [vote]).map TimeoutVote.report).reverse) := by
  obtain ⟨rfl, rfl, rfl, rfl⟩ := timesOut.ofRound
  have reports_eq : ((votes ++ [vote]).map TimeoutVote.report).reverse =
      vote.report :: (votes.map TimeoutVote.report).reverse := by simp
  have voters_eq : ((vote.report :: (votes.map TimeoutVote.report).reverse).map
      Prod.fst).toFinset = ((votes ++ [vote]).map TimeoutVote.voterId).toFinset := by
    rw [← reports_eq, List.map_reverse, List.toFinset_reverse, List.map_map]
    rfl
  have accepted : ∃ result, core.timeoutVoteCollector.addTimeoutVote vote validatorSet =
      .ok result := by
    refine timedOut.tallies.exists_addTimeoutVote_iff.mpr
      ⟨timesOut.sameSet, timesOut.member, fun highQc mem => ?_⟩
    obtain ⟨earlier, listed, report_eq⟩ := List.mem_map.mp (List.mem_reverse.mp mem)
    have same := consistent earlier listed (congrArg Prod.fst report_eq)
    rw [← same, report_eq]
  obtain ⟨⟨result, collector⟩, added⟩ := accepted
  have returned : (core.acceptTimeoutVote vote).1 = .ok result := by
    rw [acceptTimeoutVote_fst, timedOut.set, added]
    rfl
  obtain ⟨tallies, none_iff, certifies⟩ := acceptTimeoutVote_of_ok timedOut.tallies returned
  rw [timedOut.set, voters_eq] at none_iff
  rw [timedOut.set] at certifies
  have formed : validatorSet.hasQuorum ((votes ++ [vote]).map TimeoutVote.voterId).toFinset =
      true → ∃ tc, result = some tc := fun quorum =>
    Option.ne_none_iff_exists'.mp fun absent => none_iff.mp absent quorum
  refine ⟨result, core.perform (.acceptTimeoutVote vote), Prod.ext returned rfl, ?_, ?_⟩
  · constructor
    case set => exact (identity_perform core (.acceptTimeoutVote vote)).2.1.trans timedOut.set
    case voted =>
      rw [localTimeoutRounds_perform]
      exact timedOut.voted
    case tallies =>
      rw [reports_eq]
      exact tallies
    case advanced =>
      intro quorum
      obtain ⟨tc, rfl⟩ := formed quorum
      have observes : tc ∈ core.observedTc (.acceptTimeoutVote vote) := by
        simp [observedTc, returned, Except.toOption]
      have later := PacemakerState.lt_currentRound_afterTc
        (core.pacemaker.afterQc (core.observed (.acceptTimeoutVote vote))) observes
      rw [← pacemaker_perform, (certifies tc rfl).round_eq] at later
      exact later
  · intro quorum
    obtain ⟨tc, rfl⟩ := formed quorum
    exact ⟨tc, rfl, reports_eq ▸ certifies tc rfl⟩

end ConsensusCore

section Timeouts

variable {cores : ι → ConsensusCore H} {validatorSet : ValidatorSet}
  {chainId epochId height round : ℕ} {participants : List ι}

/-- The timeout votes of participants. -/
def timeoutVotes (cores : ι → ConsensusCore H) (participants : List ι)
    (height_pos : 0 < height) (round_pos : 0 < round) : List (TimeoutVote H) :=
  participants.map fun participant => (cores participant).localTimeoutVote height_pos round_pos

/-- What participants report with their timeout votes. -/
def timeoutReports (cores : ι → ConsensusCore H) (participants : List ι) :
    List (String × HighQc H) :=
  participants.map fun participant =>
    ((cores participant).localValidatorId, (cores participant).reportedQc)

omit [DecidableEq H] [DecidableEq ι] in
theorem eq_of_mem_timeoutVotes (height_pos : 0 < height) (round_pos : 0 < round)
    (distinct : (participants.map fun participant => (cores participant).localValidatorId).Nodup) :
    ∀ left ∈ timeoutVotes cores participants height_pos round_pos,
      ∀ right ∈ timeoutVotes cores participants height_pos round_pos,
        left.voterId = right.voterId → left = right := by
  intro left left_mem right right_mem same
  obtain ⟨one, one_listed, rfl⟩ := List.mem_map.mp left_mem
  obtain ⟨two, two_listed, rfl⟩ := List.mem_map.mp right_mem
  rw [List.inj_on_of_nodup_map distinct one_listed two_listed same]

omit [DecidableEq H] [DecidableEq ι] in
theorem voterIds_subset_of_timeoutVotes {height_pos : 0 < height} {round_pos : 0 < round}
    {votes : List (TimeoutVote H)}
    (subset : timeoutVotes cores participants height_pos round_pos ⊆ votes) :
    voterIds cores participants ⊆ (votes.map TimeoutVote.voterId).toFinset := by
  intro voterId mem
  obtain ⟨voter, listed, rfl⟩ := List.mem_map.mp (List.mem_toFinset.mp mem)
  have cast : (cores voter).localTimeoutVote height_pos round_pos ∈
      timeoutVotes cores participants height_pos round_pos := List.mem_map_of_mem listed
  exact List.mem_toFinset.mpr (List.mem_map_of_mem (subset cast))

/-- Timeout votes of distinct validators are counted by every participant they are handed to. -/
theorem deliver_acceptTimeoutVote {votes : List (TimeoutVote H)}
    (timeOut : ∀ vote ∈ votes, TimesOut validatorSet chainId epochId height round vote)
    (distinct : ∀ left ∈ votes, ∀ right ∈ votes, left.voterId = right.voterId → left = right)
    {deliveries : List (TimeoutVote H × ι)}
    (timedOut : ∀ delivery ∈ deliveries,
      (cores delivery.2).TimedOut validatorSet height round [])
    (listed : ∀ delivery ∈ deliveries, delivery.1 ∈ votes) (kept : Option (TC H)) :
    ∃ result final,
      deliver (fun vote core => core.acceptTimeoutVote vote) cores deliveries kept =
        (.ok result, final) ∧
      ∀ participant, (cores participant).TimedOut validatorSet height round [] →
        (final participant).TimedOut validatorSet height round (handed participant deliveries) ∧
          handed participant deliveries ⊆ votes := by
  have counts : ∀ (participant : ι) earlier (core : ConsensusCore H) vote,
      core.TimedOut validatorSet height round earlier ∧ earlier ⊆ votes → vote ∈ votes →
        ∃ result counted, core.acceptTimeoutVote vote = (.ok result, counted) ∧
          counted.TimedOut validatorSet height round (earlier ++ [vote]) ∧
            earlier ++ [vote] ⊆ votes := by
    rintro participant earlier core vote ⟨timed, subset⟩ mem
    obtain ⟨result, counted, accepts, next, -⟩ := timed.acceptTimeoutVote (timeOut vote mem)
      fun other other_mem same => congrArg _ (distinct other (subset other_mem) vote mem same)
    exact ⟨result, counted, accepts, next,
      List.append_subset.mpr ⟨subset, List.cons_subset.mpr ⟨mem, List.nil_subset votes⟩⟩⟩
  obtain ⟨result, final, delivered, holds⟩ := deliver_of_returns _ _ counts
    (fun delivery mem => ⟨timedOut delivery mem, List.nil_subset votes⟩) listed kept
  exact ⟨result, final, delivered,
    fun participant timed => holds participant ⟨timed, List.nil_subset votes⟩⟩

/-- Whoever has timed out the round stops a drive of it. -/
theorem driveTimeoutRound_again (positive : 0 < height ∧ 0 < round)
    {participant : ι} (voted : (height, round) ∈ (cores participant).localTimeoutRounds)
    (listed : participant ∈ participants) :
    ∃ after, driveTimeoutRound cores height round participants =
      (.error "local validator already timed out this round", after) := by
  have outcomes : ∀ core : ConsensusCore H,
      (∃ next, core.makeTimeoutVote height round =
        (.error "local validator already timed out this round", next)) ∨
      ∃ vote next, core.makeTimeoutVote height round = (.ok vote, next) := by
    intro core
    simp only [makeTimeoutVote, dif_pos positive]
    split
    · exact .inl ⟨_, rfl⟩
    · exact .inr ⟨_, _, rfl⟩
  have raises : ∃ next, (cores participant).makeTimeoutVote height round =
      (.error "local validator already timed out this round", next) := by
    simp only [makeTimeoutVote, dif_pos positive, if_pos voted]
    exact ⟨_, rfl⟩
  obtain ⟨after, fails⟩ := collect_raises outcomes listed raises
  exact ⟨after, by simp only [driveTimeoutRound, fails]⟩

/-- A round that is timed out by a quorum of validators yields the certificate for all their votes
and moves them past the round; none of them takes part in timing it out again. -/
theorem driveTimeoutRound_of_quorum (positive : 0 < height ∧ 0 < round)
    (untimed : ∀ participant ∈ participants,
      (cores participant).Untimed validatorSet chainId epochId height round)
    (distinct : (participants.map fun participant => (cores participant).localValidatorId).Nodup)
    (quorum : validatorSet.hasQuorum (voterIds cores participants) = true) :
    ∃ tc final, driveTimeoutRound cores height round participants = (.ok tc, final) ∧
      Certifies tc validatorSet chainId epochId height round
        (timeoutReports cores participants) ∧
      (∀ participant ∈ participants, round < (final participant).pacemaker.currentRound) ∧
      ∀ others : List ι, (∃ participant ∈ participants, participant ∈ others) →
        ∃ after, driveTimeoutRound final height round others =
          (.error "local validator already timed out this round", after) := by
  obtain ⟨height_pos, round_pos⟩ := positive
  have voting : ∀ participant core, core = cores participant ∧
      core.Untimed validatorSet chainId epochId height round →
      ∃ voted, core.makeTimeoutVote height round =
          (.ok ((cores participant).localTimeoutVote height_pos round_pos), voted) ∧
        voted.TimedOut validatorSet height round [] := by
    rintro participant core ⟨rfl, unvoted⟩
    exact unvoted.makeTimeoutVote height_pos round_pos
  obtain ⟨voted, collected, voted_timedOut, -⟩ := collect_once voting (List.Nodup.of_map _ distinct)
    fun participant mem => ⟨rfl, untimed participant mem⟩
  have timeOut : ∀ vote ∈ timeoutVotes cores participants height_pos round_pos,
      TimesOut validatorSet chainId epochId height round vote := by
    intro vote mem
    obtain ⟨participant, listed, rfl⟩ := List.mem_map.mp mem
    exact (untimed participant listed).timesOut height_pos round_pos
  have votes_distinct := eq_of_mem_timeoutVotes height_pos round_pos distinct
  have some_participant : participants ≠ [] := by
    rintro rfl
    simp [voterIds, ValidatorSet.hasQuorum, ValidatorSet.quorumSize] at quorum
  have some_vote : timeoutVotes cores participants height_pos round_pos ≠ [] := by
    simpa [timeoutVotes] using some_participant
  obtain ⟨front, vote, last, split, vote_mem, last_mem⟩ :=
    exists_product_eq_concat some_vote some_participant
  have handed_all : ∀ participant ∈ participants,
      timeoutVotes cores participants height_pos round_pos ⊆
        handed participant (front ++ [(vote, last)]) := by
    intro participant listed other mem
    rw [← split]
    exact mem_handed_product listed mem
  have all_handed : ∀ participant ∈ participants, validatorSet.hasQuorum
      ((handed participant (front ++ [(vote, last)])).map TimeoutVote.voterId).toFinset =
        true := by
    intro participant listed
    have subset := voterIds_subset_of_timeoutVotes (handed_all participant listed)
    exact ValidatorSet.hasQuorum_mono subset quorum
  have deliverable : ∀ delivery ∈ front ++ [(vote, last)],
      delivery.1 ∈ timeoutVotes cores participants height_pos round_pos ∧
        delivery.2 ∈ participants := by
    rw [← split]
    exact fun delivery mem => List.mem_product.mp mem
  obtain ⟨result, final, delivered, holds⟩ := deliver_acceptTimeoutVote timeOut votes_distinct
    (fun delivery mem => voted_timedOut delivery.2 (deliverable delivery mem).2)
    (fun delivery mem => (deliverable delivery mem).1) none
  obtain ⟨earlier, middle, front_delivered, front_holds⟩ := deliver_acceptTimeoutVote timeOut
    votes_distinct
    (fun delivery mem => voted_timedOut delivery.2
      (deliverable delivery (List.mem_append_left _ mem)).2)
    (fun delivery mem => (deliverable delivery (List.mem_append_left _ mem)).1) none
  -- The last delivery completes the quorum at the last participant.
  obtain ⟨last_timedOut, front_subset⟩ := front_holds last (voted_timedOut last last_mem)
  obtain ⟨formed, counted, accepts, -, completes⟩ := last_timedOut.acceptTimeoutVote
    (timeOut vote vote_mem) fun other other_mem same =>
      congrArg _ (votes_distinct other (front_subset other_mem) vote vote_mem same)
  have last_quorum := all_handed last last_mem
  rw [handed_concat_self] at last_quorum
  obtain ⟨tc, rfl, certifies⟩ := completes last_quorum
  have returned := deliver_concat front_delivered accepts
  rw [returned] at delivered
  obtain ⟨rfl, rfl⟩ := by simpa using delivered
  have votes_eq : participants.map (fun participant =>
      (cores participant).localTimeoutVote height_pos round_pos) =
        timeoutVotes cores participants height_pos round_pos := rfl
  refine ⟨tc, Function.update middle last counted, ?_, certifies.congr fun report => ?_,
    fun participant listed => ?_, ?_⟩
  · simp only [driveTimeoutRound, collected, votes_eq, split, returned]
  · have reports_eq : timeoutReports cores participants =
        (timeoutVotes cores participants height_pos round_pos).map TimeoutVote.report := by
      rw [timeoutVotes, List.map_map]
      rfl
    have subset := (holds last (voted_timedOut last last_mem)).2
    have superset := handed_all last last_mem
    rw [handed_concat_self] at subset superset
    rw [List.mem_reverse, reports_eq]
    exact ⟨fun mem => List.map_subset _ subset mem, fun mem => List.map_subset _ superset mem⟩
  · exact (holds participant (voted_timedOut participant listed)).1.advanced
      (all_handed participant listed)
  · rintro others ⟨participant, listed, other_listed⟩
    exact driveTimeoutRound_again ⟨height_pos, round_pos⟩
      (holds participant (voted_timedOut participant listed)).1.voted other_listed

end Timeouts

/-! ## Cores that start -/

/-- The members of a validator set. -/
abbrev Member (validatorSet : ValidatorSet) :=
  {validatorId : String // validatorSet.contains validatorId = true}

/-- The cores of all members, with empty stores. -/
def freshCores (validatorSet : ValidatorSet) (chainId epochId : ℕ) (member : Member validatorSet) :
    ConsensusCore H :=
  .fresh chainId epochId member.1 validatorSet member.2

omit [DecidableEq H] [Crypto H] [DecidableEq ι] in
theorem willing_freshCores {validatorSet : ValidatorSet} {proposal : Proposal H}
    (member : Member validatorSet) :
    (freshCores validatorSet proposal.chainId proposal.epochId member).Willing validatorSet proposal
      none where
  set := rfl
  chain := ⟨rfl, rfl⟩
  current := Nat.succ_le_succ (Nat.zero_le proposal.round)
  locked_le := forall_mem_none _
  unlocked := forall_mem_none _
  voted _ := forall_mem_none _
  counted _ _ := forall_mem_none _

omit [DecidableEq H] [DecidableEq ι] in
theorem untimed_freshCores {validatorSet : ValidatorSet} (chainId epochId height round : ℕ)
    (member : Member validatorSet) :
    (freshCores (H := H) validatorSet chainId epochId member).Untimed validatorSet chainId epochId
      height round where
  set := rfl
  chain := ⟨rfl, rfl⟩
  unvoted := Finset.notMem_empty _
  uncounted := TimeoutVoteCollector.tallies_empty height round

/-- A proposal to the validator set of two members. -/
def pairProposal : Proposal SymbolicDigest :=
  ⟨1, 0, 1, 1, "a", Session.pairSet.validatorSetHash, .filled 1, none, Nat.one_pos, Nat.one_pos,
    CoreSystem.a_ne⟩

def pairMemberA : Member Session.pairSet := ⟨"a", rfl⟩

def pairMemberB : Member Session.pairSet := ⟨"b", rfl⟩

def pairCores : Member Session.pairSet → ConsensusCore SymbolicDigest :=
  freshCores Session.pairSet 1 0

/-- Two validators commit a proposal that was first driven over one of them. -/
theorem commits_after_drives_pair :
    ∃ result final,
      driveSingleRoundCommit (afterDrives pairCores pairProposal none [[pairMemberA]]) pairProposal
        none [pairMemberA, pairMemberB] = (.ok result, final) ∧
      Commits Session.pairSet pairProposal
        (voterIds pairCores [pairMemberA, pairMemberB]) result ∧
      ∀ participant ∈ [pairMemberA, pairMemberB],
        (∃ locked ∈ (final participant).lockedQc,
          locked.round = pairProposal.round ∧ locked.blockHash = pairProposal.blockHash) ∧
        pairProposal.round ≤ (final participant).pacemaker.lastDecidedRound :=
  commits_after_drives ⟨rfl, rfl, forall_mem_none _, forall_mem_none _⟩ willing_freshCores
    [[pairMemberA]] [pairMemberA, pairMemberB] rfl

/-- Two validators leave round 1. -/
theorem driveTimeoutRound_of_quorum_pair :
    ∃ tc final, driveTimeoutRound pairCores 1 1 [pairMemberA, pairMemberB] = (.ok tc, final) ∧
      Certifies tc Session.pairSet 1 0 1 1
        (timeoutReports pairCores [pairMemberA, pairMemberB]) ∧
      (∀ participant ∈ [pairMemberA, pairMemberB],
        1 < (final participant).pacemaker.currentRound) ∧
      ∀ others : List (Member Session.pairSet),
        (∃ participant ∈ [pairMemberA, pairMemberB], participant ∈ others) →
          ∃ after, driveTimeoutRound final 1 1 others =
            (.error "local validator already timed out this round", after) :=
  driveTimeoutRound_of_quorum ⟨Nat.one_pos, Nat.one_pos⟩
    (fun participant _ => untimed_freshCores 1 0 1 1 participant)
    (by simp [pairCores, freshCores, fresh, pairMemberA, pairMemberB]) rfl

end EZChain
