import EZChain.Consensus.Overflow
import EZChain.Consensus.SignerVotes
import EZChain.Library.Runs

/-!
# Inbound votes and the local vote

The vote log stores the votes that a core has cast and the votes that it has accepted, and the
local choices are restored from it.  A run is compared with the run in which some accepted votes are
left out: the core is willing to cast the same votes as long as no vote that was left out changes
the logged vote of the local validator.
-/

namespace EZChain

namespace ConsensusCore

open Checks

variable {H : Type}

/-! ## Cores that differ in votes only -/

/-- The core with other counted, chosen and logged votes. -/
def withVotes (core : ConsensusCore H) (collector : VoteCollector H)
    (choices : OrderedDict (ℕ × ℕ × VotePhase) H)
    (log : OrderedDict (ℕ × ℕ × VotePhase × String) H) : ConsensusCore H :=
  { core with
    voteCollector := collector
    localVoteChoice := choices
    store := { core.store with voteLog := log } }

/-- The cores differ in their counted, chosen and logged votes only. -/
def SameButVotes (left right : ConsensusCore H) : Prop :=
  ∃ collector choices log, right = left.withVotes collector choices log

theorem sameButVotes_withVotes (core : ConsensusCore H) (collector : VoteCollector H)
    (choices : OrderedDict (ℕ × ℕ × VotePhase) H)
    (log : OrderedDict (ℕ × ℕ × VotePhase × String) H) :
    core.SameButVotes (core.withVotes collector choices log) := ⟨_, _, _, rfl⟩

theorem SameButVotes.refl (core : ConsensusCore H) : core.SameButVotes core := ⟨_, _, _, rfl⟩

theorem SameButVotes.symm {left right : ConsensusCore H} (same : left.SameButVotes right) :
    right.SameButVotes left := by
  obtain ⟨collector, choices, log, rfl⟩ := same
  exact ⟨_, _, _, rfl⟩

theorem SameButVotes.trans {first second third : ConsensusCore H}
    (left : first.SameButVotes second) (right : second.SameButVotes third) :
    first.SameButVotes third := by
  obtain ⟨_, _, _, rfl⟩ := left
  obtain ⟨_, _, _, rfl⟩ := right
  exact ⟨_, _, _, rfl⟩

variable [DecidableEq H] [Crypto H]

theorem SameButVotes.observeQc {left right : ConsensusCore H} (same : left.SameButVotes right)
    (qc : Option (QC H)) : (left.observeQc qc).SameButVotes (right.observeQc qc) := by
  obtain ⟨collector, choices, log, rfl⟩ := same
  cases qc with
  | none => exact ⟨_, _, _, rfl⟩
  | some qc =>
      by_cases precommit : qc.phase = .precommit
      · refine ⟨collector, choices, log.filterKeys fun key => qc.round ≤ key.2.1, ?_⟩
        simp only [ConsensusCore.observeQc, precommit, if_true]
        rfl
      · refine ⟨collector, choices, log, ?_⟩
        simp only [ConsensusCore.observeQc, precommit, if_false]
        rfl

theorem SameButVotes.checkProposal {left right : ConsensusCore H}
    (same : left.SameButVotes right) (proposal : Proposal H) (justifyQc : Option (QC H)) :
    right.checkProposal proposal justifyQc = left.checkProposal proposal justifyQc := by
  obtain ⟨_, _, _, rfl⟩ := same
  rfl

theorem SameButVotes.validateProposal {left right : ConsensusCore H}
    (same : left.SameButVotes right) (proposal : Proposal H) (justifyQc : Option (QC H)) :
    (left.validateProposal proposal justifyQc).2.SameButVotes
      (right.validateProposal proposal justifyQc).2 := by
  have observed := same.observeQc justifyQc
  simp only [validateProposal_snd, observed.checkProposal]
  obtain ⟨_, _, _, later_eq⟩ := observed
  rw [later_eq]
  split <;> exact ⟨_, _, _, rfl⟩

theorem sameButVotes_makeVote (core : ConsensusCore H) (proposal : Proposal H)
    (justifyQc : Option (QC H)) (phase : VotePhase) :
    (core.validateProposal proposal justifyQc).2.SameButVotes
      (core.perform (.makeVote proposal justifyQc phase)) := by
  simp only [perform, makeVote_snd]
  split
  · exact .refl _
  · exact ⟨_, _, _, rfl⟩

theorem sameButVotes_acceptVote (core : ConsensusCore H) (vote : Vote H) :
    (core.observeQc (core.observed (.acceptVote vote))).SameButVotes
      (core.perform (.acceptVote vote)) := by
  cases added : core.voteCollector.addVote vote core.validatorSet with
  | error message =>
      simp only [observed, perform, acceptVote, added]
      exact .refl core
  | ok result =>
      simp only [observed, perform, acceptVote, added]
      exact (sameButVotes_withVotes core _ core.localVoteChoice _).observeQc _

/-- Calls that observe the same certificate keep cores equal up to votes. -/
theorem SameButVotes.perform {left right : ConsensusCore H} (same : left.SameButVotes right)
    {call : Call H} (observed : left.observed call = right.observed call) :
    (left.perform call).SameButVotes (right.perform call) := by
  cases call with
  | observeQc qc => exact same.observeQc qc
  | observeTc tc =>
      obtain ⟨_, _, _, rfl⟩ := same
      cases tc <;> exact ⟨_, _, _, rfl⟩
  | validateProposal proposal justifyQc => exact same.validateProposal proposal justifyQc
  | makeVote proposal justifyQc phase =>
      exact ((sameButVotes_makeVote left proposal justifyQc phase).symm.trans
        (same.validateProposal proposal justifyQc)).trans
          (sameButVotes_makeVote right proposal justifyQc phase)
  | acceptVote vote =>
      have middle := same.observeQc (left.observed (.acceptVote vote))
      refine (sameButVotes_acceptVote left vote).symm.trans (middle.trans ?_)
      rw [observed]
      exact sameButVotes_acceptVote right vote
  | makeTimeoutVote height round =>
      obtain ⟨collector, choices, log, rfl⟩ := same
      refine ⟨collector, choices, log, ?_⟩
      by_cases positive : 0 < height ∧ 0 < round
      · by_cases held : (height, round) ∈ left.localTimeoutRounds
        · have held_other : (height, round) ∈
            (left.withVotes collector choices log).localTimeoutRounds := held
          simp only [ConsensusCore.perform, makeTimeoutVote, dif_pos positive, if_pos held,
            if_pos held_other]
        · have held_other : (height, round) ∉
            (left.withVotes collector choices log).localTimeoutRounds := held
          simp only [ConsensusCore.perform, makeTimeoutVote, dif_pos positive, if_neg held,
            if_neg held_other]
          rfl
      · simp only [ConsensusCore.perform, makeTimeoutVote, dif_neg positive]
  | acceptTimeoutVote timeoutVote =>
      obtain ⟨collector, choices, log, rfl⟩ := same
      refine ⟨collector, choices, log, ?_⟩
      cases added : left.timeoutVoteCollector.addTimeoutVote timeoutVote left.validatorSet with
      | error message => simp only [ConsensusCore.perform, acceptTimeoutVote, withVotes, added]
      | ok result =>
          obtain ⟨_ | tc, counted⟩ := result
          · simp only [ConsensusCore.perform, acceptTimeoutVote, withVotes, added]
            rfl
          · simp only [ConsensusCore.perform, acceptTimeoutVote, withVotes, added]
            rfl

/-- A core that was interrupted differs from another one in votes only, as before the call. -/
theorem SameButVotes.interrupt {left right : ConsensusCore H} (same : left.SameButVotes right)
    (call : Call H) : (left.interrupt call).SameButVotes (right.interrupt call) := by
  have locking : ∀ qc : Option (QC H),
      (qc.elim left left.lockInMemory).SameButVotes (qc.elim right right.lockInMemory) := by
    obtain ⟨_, _, _, rfl⟩ := same
    rintro (_ | qc) <;> exact ⟨_, _, _, rfl⟩
  cases call with
  | observeQc qc => exact locking qc
  | observeTc tc => exact same
  | validateProposal proposal justifyQc => exact locking justifyQc
  | makeVote proposal justifyQc phase =>
      simp only [ConsensusCore.interrupt]
      split
      · exact locking justifyQc
      · obtain ⟨_, _, _, validated⟩ := same.validateProposal proposal justifyQc
        rw [validated]
        exact ⟨_, _, _, rfl⟩
  | acceptVote vote =>
      have counting : ∀ core : ConsensusCore H,
          core.SameButVotes (core.interrupt (.acceptVote vote)) := by
        intro core
        simp only [ConsensusCore.interrupt]
        split
        · exact .refl core
        · exact ⟨_, _, _, rfl⟩
      exact ((counting left).symm.trans same).trans (counting right)
  | makeTimeoutVote height round =>
      obtain ⟨_, _, _, rfl⟩ := same
      exact ⟨_, _, _, rfl⟩
  | acceptTimeoutVote timeoutVote =>
      obtain ⟨_, _, _, rfl⟩ := same
      simp only [ConsensusCore.interrupt, withVotes]
      split <;> exact ⟨_, _, _, rfl⟩

/-- Cores that are equal up to votes write the same for a certificate. -/
theorem SameButVotes.observeQcCommits {left right : ConsensusCore H}
    (same : left.SameButVotes right) (qc : Option (QC H)) :
    right.observeQcCommits qc = left.observeQcCommits qc := by
  obtain ⟨_, _, _, rfl⟩ := same
  cases qc with
  | none => rfl
  | some qc =>
      by_cases precommit : qc.phase = .precommit <;>
        · simp only [ConsensusCore.observeQcCommits, precommit, if_true, if_false]
          rfl

/-- Cores that are equal up to votes and return the same vote write the same, inbound votes
apart. -/
theorem SameButVotes.commits {left right : ConsensusCore H} (same : left.SameButVotes right)
    {call : Call H} (emitted : right.emitted call = left.emitted call)
    (inbound : ∀ vote, call ≠ .acceptVote vote) : right.commits call = left.commits call := by
  have validating : ∀ proposal justifyQc, right.validateProposalCommits proposal justifyQc =
      left.validateProposalCommits proposal justifyQc := by
    intro proposal justifyQc
    rw [validateProposalCommits, validateProposalCommits, same.observeQcCommits,
      (same.observeQc justifyQc).checkProposal]
  cases call with
  | observeQc qc => exact same.observeQcCommits qc
  | observeTc tc =>
      obtain ⟨_, _, _, rfl⟩ := same
      cases tc <;> rfl
  | validateProposal proposal justifyQc => exact validating proposal justifyQc
  | makeVote proposal justifyQc phase =>
      rw [commits_makeVote, commits_makeVote, validating, emitted]
  | acceptVote vote => exact absurd rfl (inbound vote)
  | makeTimeoutVote height round =>
      obtain ⟨collector, choices, log, rfl⟩ := same
      by_cases positive : 0 < height ∧ 0 < round
      · by_cases held : (height, round) ∈ left.localTimeoutRounds
        · have held_other : (height, round) ∈
            (left.withVotes collector choices log).localTimeoutRounds := held
          simp only [ConsensusCore.commits, makeTimeoutVote, dif_pos positive, if_pos held,
            if_pos held_other]
        · have held_other : (height, round) ∉
            (left.withVotes collector choices log).localTimeoutRounds := held
          simp only [ConsensusCore.commits, makeTimeoutVote, dif_pos positive, if_neg held,
            if_neg held_other]
          rfl
      · simp only [ConsensusCore.commits, makeTimeoutVote, dif_neg positive]
  | acceptTimeoutVote timeoutVote =>
      obtain ⟨_, _, _, rfl⟩ := same
      simp only [ConsensusCore.commits, withVotes]
      split
      · rfl
      next tc _ _ => cases tc <;> rfl

theorem SameButVotes.overflows {left right : ConsensusCore H} (same : left.SameButVotes right)
    {call : Call H} (emitted : right.emitted call = left.emitted call)
    (inbound : ∀ vote, call ≠ .acceptVote vote) : right.Overflows call ↔ left.Overflows call := by
  rw [Overflows, Overflows, same.commits emitted inbound]

theorem sameButVotes_acceptStored {core : ConsensusCore H} {vote : Vote H}
    (noQc : core.savedQc (.acceptVote vote) = none) :
    core.SameButVotes (core.performStored (.acceptVote vote)) := by
  by_cases fits : vote.record.Fits
  · have accepting := sameButVotes_acceptVote core vote
    rw [savedQc, if_pos fits] at noQc
    rw [noQc] at accepting
    rw [performStored, if_neg (not_overflows_acceptVote fits)]
    exact accepting
  · obtain ⟨collector, counted⟩ := core.performStored_of_long fits
    rw [counted]
    exact ⟨_, _, _, rfl⟩

/-- Stored calls that save the same certificate keep cores equal up to votes. -/
theorem SameButVotes.performStored {left right : ConsensusCore H}
    (same : left.SameButVotes right) {call : Call H}
    (saved : left.savedQc call = right.savedQc call)
    (emitted : right.emitted call = left.emitted call) :
    (left.performStored call).SameButVotes (right.performStored call) := by
  have completed : ¬ left.Overflows call → ¬ right.Overflows call →
      (left.performStored call).SameButVotes (right.performStored call) := by
    intro left_runs right_runs
    rcases left.stored_cases call with ⟨-, left_eq, -, -, left_qc, -⟩ | ⟨raised, -⟩
    · rcases right.stored_cases call with ⟨-, right_eq, -, -, right_qc, -⟩ | ⟨raised, -⟩
      · rw [left_eq, right_eq]
        exact same.perform (by rw [← left_qc, saved, right_qc])
      · exact absurd raised right_runs
    · exact absurd raised left_runs
  by_cases accepts : ∃ vote, call = .acceptVote vote
  · obtain ⟨vote, rfl⟩ := accepts
    by_cases fits : vote.record.Fits
    · exact completed (not_overflows_acceptVote fits) (not_overflows_acceptVote fits)
    · have unsaved : ∀ core : ConsensusCore H, core.savedQc (.acceptVote vote) = none :=
        fun _ => if_neg fits
      exact ((sameButVotes_acceptStored (unsaved left)).symm.trans same).trans
        (sameButVotes_acceptStored (unsaved right))
  · have overflows := same.overflows emitted fun vote call_eq => accepts ⟨vote, call_eq⟩
    by_cases raises : left.Overflows call
    · rw [ConsensusCore.performStored, if_pos raises, ConsensusCore.performStored,
        if_pos (overflows.mpr raises)]
      exact same.interrupt call
    · exact completed raises (overflows.not.mpr raises)

theorem SameButVotes.restart {left right : ConsensusCore H} (same : left.SameButVotes right) :
    left.restart.SameButVotes right.restart := by
  obtain ⟨collector, choices, log, rfl⟩ := same
  simp only [ConsensusCore.restart, postInit, dif_pos left.local_mem,
    dif_pos (left.withVotes collector choices log).local_mem]
  exact ⟨_, _, _, rfl⟩

/-! ## The votes that a core is willing to cast -/

/-- The blocks for which `make_vote` returns a vote, whatever the proposal and its certificate. -/
def willing (core : ConsensusCore H) (height round : ℕ) (phase : VotePhase) : Set H :=
  {blockHash | ∃ proposal justifyQc vote, proposal.height = height ∧ proposal.round = round ∧
    proposal.blockHash = blockHash ∧
      core.emittedStored (.makeVote proposal justifyQc phase) = some vote}

/-- A slot of the vote log. -/
def Slot (height round : ℕ) : Prop :=
  (0 < height ∧ 0 < round) ∧ height ≤ maxColumnInteger ∧ round ≤ maxColumnInteger

/-- A core is willing to vote in the rounds from the one before its current round on, and there for
its local choice only. -/
theorem mem_willing_iff {core : ConsensusCore H} {height round : ℕ} {phase : VotePhase}
    {blockHash : H} :
    blockHash ∈ core.willing height round phase ↔
      Slot height round ∧ core.pacemaker.currentRound ≤ round + 1 ∧
        ∀ existing ∈ core.localVoteChoice.get? (height, round, phase), existing = blockHash := by
  constructor
  · rintro ⟨proposal, justifyQc, vote, rfl, rfl, rfl, returned⟩
    obtain ⟨emits, -, fits⟩ := emittedStored_makeVote.mp returned
    obtain ⟨⟨checked, consistent⟩, rfl⟩ := Session.emitted_makeVote.mp emits
    have current := (checkProposal_eq_ok.mp checked).2.2.2.1
    rw [pacemaker_observeQc] at current
    have ahead := (PacemakerState.atMost_afterQc core.pacemaker justifyQc).currentRound
    exact ⟨⟨⟨proposal.height_pos, proposal.round_pos⟩, fits⟩, ahead.trans current, consistent⟩
  · rintro ⟨⟨⟨height_pos, round_pos⟩, fits⟩, current, consistent⟩
    -- A proposal of the local validator without a justifying certificate passes all checks.
    let proposal : Proposal H :=
      { chainId := core.chainId
        epochId := core.epochId
        height := height
        round := round
        proposerId := core.localValidatorId
        validatorSetHash := core.validatorSet.validatorSetHash
        blockHash := blockHash
        justifyQcHash := none
        height_pos := height_pos
        round_pos := round_pos
        proposerId_ne := ValidatorSet.id_ne_of_contains core.local_mem }
    have checked : (core.observeQc none).checkProposal proposal none = .ok () :=
      checkProposal_eq_ok.mpr ⟨⟨rfl, rfl⟩, rfl, core.local_mem, current, nofun, nofun⟩
    exact ⟨proposal, none, core.localVote proposal phase, rfl, rfl, rfl,
      emittedStored_makeVote.mpr
        ⟨Session.emitted_makeVote.mpr ⟨⟨checked, consistent⟩, rfl⟩, nofun, fits⟩⟩

/-- Cores that are equal up to votes return the same vote when they made the same choice. -/
theorem SameButVotes.emitted {left right : ConsensusCore H} (same : left.SameButVotes right)
    (choices : ∀ height round phase, left.pacemaker.currentRound ≤ round + 1 →
      left.localVoteChoice.get? (height, round, phase) =
        right.localVoteChoice.get? (height, round, phase)) (call : Call H) :
    right.emitted call = left.emitted call := by
  cases call with
  | makeVote proposal justifyQc phase =>
      refine Option.ext fun vote => ?_
      rw [Session.emitted_makeVote, Session.emitted_makeVote, Grants, Grants,
        (same.observeQc justifyQc).checkProposal]
      have vote_eq : right.localVote proposal phase = left.localVote proposal phase := by
        obtain ⟨_, _, _, rfl⟩ := same
        rfl
      rw [vote_eq, and_congr_left_iff]
      rintro -
      refine and_congr_right fun checked => ?_
      have current := (checkProposal_eq_ok.mp checked).2.2.2.1
      rw [pacemaker_observeQc] at current
      have ahead := (PacemakerState.atMost_afterQc left.pacemaker justifyQc).currentRound
      rw [choices _ _ _ (ahead.trans current)]
  | _ => rfl

/-- The logged vote of the local validator after a call, in a round that the saved pacemaker has not
left behind. -/
theorem ownLog_perform (core : ConsensusCore H) (call : Call H) (height : ℕ) {round : ℕ}
    (phase : VotePhase)
    (recent : (core.perform call).store.pacemakerState.currentRound ≤ round + 1) :
    (core.perform call).store.voteLog.get? (height, round, phase, core.localValidatorId) =
      match core.loggedVote call with
      | none => core.store.voteLog.get? (height, round, phase, core.localValidatorId)
      | some vote =>
          if (vote.height, vote.round, vote.phase, vote.voterId) =
            (height, round, phase, core.localValidatorId)
          then some vote.blockHash
          else core.store.voteLog.get? (height, round, phase, core.localValidatorId) := by
  have kept : ¬ Prunes (core.observed call) round := by
    rintro ⟨qc, observes, -, older⟩
    have moved := lt_currentRound_afterQc core.pacemaker observes
    have ahead := (PacemakerState.atMost_afterTc
      (core.pacemaker.afterQc (core.observed call)) (core.observedTc call)).currentRound
    rcases core.saved_perform_or call with ⟨saved, -⟩ | ⟨silent, -⟩
    · rw [saved, pacemaker_perform] at recent
      omega
    · cases silent.symm.trans observes
  exact (voteLog_perform core call height round phase core.localValidatorId).trans (if_neg kept)

theorem Interruption.ownLog {core next : ConsensusCore H} {call : Call H}
    {commits : List (Commit H)} (interruption : core.Interruption call next commits) (height : ℕ)
    {round : ℕ} (phase : VotePhase)
    (recent : next.store.pacemakerState.currentRound ≤ round + 1) :
    next.store.voteLog.get? (height, round, phase, core.localValidatorId) =
      core.store.voteLog.get? (height, round, phase, core.localValidatorId) := by
  cases interruption with
  | unprunable => rfl
  | unrecorded => exact ownLog_perform core (.validateProposal _ _) height phase recent
  | unsaved => rfl

theorem ownLog_performStored (core : ConsensusCore H) (call : Call H) (height : ℕ) {round : ℕ}
    (phase : VotePhase)
    (recent : (core.performStored call).store.pacemakerState.currentRound ≤ round + 1) :
    (core.performStored call).store.voteLog.get?
        (height, round, phase, core.localValidatorId) =
      match core.loggedStored call with
      | none => core.store.voteLog.get? (height, round, phase, core.localValidatorId)
      | some vote =>
          if (vote.height, vote.round, vote.phase, vote.voterId) =
            (height, round, phase, core.localValidatorId)
          then some vote.blockHash
          else core.store.voteLog.get? (height, round, phase, core.localValidatorId) := by
  rcases core.stored_cases call with ⟨completes, performs, -⟩ | ⟨raises, -, interrupted⟩
  · rw [performs] at recent ⊢
    rw [loggedStored, if_neg completes]
    exact ownLog_perform core call height phase recent
  · rw [loggedStored, if_pos raises]
    exact interrupted.ownLog height phase recent

/-- A vote is accepted and written to the log. -/
def Records (core : ConsensusCore H) (vote : Vote H) : Prop :=
  core.voteCollector.Admits vote core.validatorSet ∧ vote.record.Fits

theorem loggedStored_acceptVote {core : ConsensusCore H} {vote found : Vote H} :
    core.loggedStored (.acceptVote vote) = some found ↔ found = vote ∧ core.Records vote := by
  by_cases fits : vote.record.Fits
  · rw [loggedStored, if_neg (not_overflows_acceptVote fits)]
    change core.acceptedVote (.acceptVote vote) = some found ↔ _
    rw [acceptedVote_eq_some]
    constructor
    · rintro ⟨⟨⟩, admits⟩
      exact ⟨rfl, admits, fits⟩
    · rintro ⟨rfl, admits, -⟩
      exact ⟨rfl, admits⟩
  · refine iff_of_false ?_ fun records => fits records.2.2
    intro logs
    rw [loggedStored] at logs
    split at logs
    · cases logs
    next completes =>
      have accepts : core.acceptedVote (.acceptVote vote) = some found := logs
      cases added : core.voteCollector.addVote vote core.validatorSet with
      | error message => simp [acceptedVote, acceptVote, added] at accepts
      | ok result =>
          refine completes ⟨vote.record, ?_, fits⟩
          simp only [ConsensusCore.commits, added]
          exact List.mem_cons_self ..

theorem ownLog_of_records {core : ConsensusCore H} {vote : Vote H} (records : core.Records vote)
    (recent : (core.performStored (.acceptVote vote)).store.pacemakerState.currentRound ≤
      vote.round + 1)
    (own : vote.voterId = core.localValidatorId) :
    (core.performStored (.acceptVote vote)).store.voteLog.get?
      (vote.height, vote.round, vote.phase, core.localValidatorId) = some vote.blockHash := by
  rw [ownLog_performStored core _ _ _ recent, loggedStored_acceptVote.mpr ⟨rfl, records⟩]
  exact if_pos (by rw [own])

theorem ownLog_of_other {core : ConsensusCore H} {vote : Vote H} {height round : ℕ}
    {phase : VotePhase}
    (recent : (core.performStored (.acceptVote vote)).store.pacemakerState.currentRound ≤ round + 1)
    (other : (vote.height, vote.round, vote.phase, vote.voterId) =
      (height, round, phase, core.localValidatorId) → ¬ core.Records vote) :
    (core.performStored (.acceptVote vote)).store.voteLog.get?
        (height, round, phase, core.localValidatorId) =
      core.store.voteLog.get? (height, round, phase, core.localValidatorId) := by
  rw [ownLog_performStored core _ _ _ recent]
  cases logs : core.loggedStored (.acceptVote vote) with
  | none => rfl
  | some found =>
      obtain ⟨rfl, records⟩ := loggedStored_acceptVote.mp logs
      simp only [if_neg fun same => other same records]

end ConsensusCore

open ConsensusCore

variable {H : Type} [DecidableEq H] [Crypto H]

/-! ## Two runs side by side -/

/-- An event of two runs, or a vote that is accepted in the first run and left out of the second. -/
inductive PairedEvent (H : Type) where
  | both (event : Event H)
  | leftOut (vote : Vote H)

/-- The core after an event. -/
def ConsensusCore.follow (core : ConsensusCore H) : Event H → ConsensusCore H
  | .call call => core.performStored call
  | .restart => core.restart

namespace PairedRun

def step (pair : ConsensusCore H × ConsensusCore H) :
    PairedEvent H → ConsensusCore H × ConsensusCore H
  | .both event => (pair.1.follow event, pair.2.follow event)
  | .leftOut vote => (pair.1.performStored (.acceptVote vote), pair.2)

/-- A vote that is left out completes no certificate, and all other calls observe the same
certificate in both runs. -/
def FormsNoQc (pair : ConsensusCore H × ConsensusCore H) : PairedEvent H → Prop
  | .both (.call call) => pair.1.savedQc call = pair.2.savedQc call
  | .both .restart => True
  | .leftOut vote => pair.1.savedQc (.acceptVote vote) = none

/-- A vote that can be logged and names the local validator, in a round that the saved pacemaker has
not left behind. -/
def NamesLocal (pair : ConsensusCore H × ConsensusCore H) (vote : Vote H) : Prop :=
  vote.voterId = pair.1.localValidatorId ∧
    pair.1.store.pacemakerState.currentRound ≤ vote.round + 1 ∧ vote.record.Fits

/-- The log holds the vote already. -/
def AlreadyLogged (pair : ConsensusCore H × ConsensusCore H) (vote : Vote H) : Prop :=
  pair.1.store.voteLog.get? (vote.height, vote.round, vote.phase, vote.voterId) =
    some vote.blockHash

/-- A vote that names the local validator and is admitted in one run only repeats the logged
vote. -/
def KeepsOwnVote (pair : ConsensusCore H × ConsensusCore H) : PairedEvent H → Prop
  | .both (.call (.acceptVote vote)) => NamesLocal pair vote →
      (pair.1.voteCollector.Admits vote pair.1.validatorSet ↔
        pair.2.voteCollector.Admits vote pair.2.validatorSet) ∨ AlreadyLogged pair vote
  | .leftOut vote => NamesLocal pair vote →
      pair.1.voteCollector.Admits vote pair.1.validatorSet → AlreadyLogged pair vote
  | _ => True

/-- The cores are willing to cast the same votes, and also when they are built again. -/
def SameWilling (pair : ConsensusCore H × ConsensusCore H) : Prop :=
  ∀ height round phase, pair.1.willing height round phase = pair.2.willing height round phase ∧
    pair.1.restart.willing height round phase = pair.2.restart.willing height round phase

/-- The cores differ in votes only, and agree on the local validator's votes in the rounds that the
pacemakers in memory and in the store have not left behind. -/
structure Aligned (pair : ConsensusCore H × ConsensusCore H) : Prop where
  same : pair.1.SameButVotes pair.2
  saved : pair.1.SavedAtMost
  choices : ∀ height round phase, pair.1.pacemaker.currentRound ≤ round + 1 →
    pair.1.localVoteChoice.get? (height, round, phase) =
      pair.2.localVoteChoice.get? (height, round, phase)
  logs : ∀ height round phase, pair.1.store.pacemakerState.currentRound ≤ round + 1 →
    pair.1.store.voteLog.get? (height, round, phase, pair.1.localValidatorId) =
      pair.2.store.voteLog.get? (height, round, phase, pair.1.localValidatorId)

variable {pair : ConsensusCore H × ConsensusCore H}

omit [DecidableEq H] [Crypto H] in
theorem Aligned.identity (aligned : Aligned pair) :
    pair.2.localValidatorId = pair.1.localValidatorId ∧
      pair.2.pacemaker = pair.1.pacemaker ∧
      pair.2.store.pacemakerState = pair.1.store.pacemakerState := by
  obtain ⟨_, _, _, same⟩ := aligned.same
  rw [same]
  exact ⟨rfl, rfl, rfl⟩

theorem Aligned.sameWilling (aligned : Aligned pair) : SameWilling pair := by
  obtain ⟨local_eq, pacemaker_eq, saved_eq⟩ := aligned.identity
  intro height round phase
  constructor
  · ext blockHash
    rw [mem_willing_iff, mem_willing_iff, pacemaker_eq]
    refine and_congr_right fun _ => and_congr_right fun recent => ?_
    rw [aligned.choices _ _ _ recent]
  · ext blockHash
    rw [mem_willing_iff, mem_willing_iff, pacemaker_restart, pacemaker_restart, saved_eq,
      localVoteChoice_restart, localVoteChoice_restart, local_eq]
    refine and_congr_right fun _ => and_congr_right fun recent => ?_
    rw [aligned.logs _ _ _ recent]

/-- A call that is made in both runs keeps the choices of the cores aligned. -/
theorem Aligned.choices_performStored (aligned : Aligned pair) (call : Call H) (height round : ℕ)
    (phase : VotePhase)
    (recent : (pair.1.performStored call).pacemaker.currentRound ≤ round + 1) :
    (pair.1.performStored call).localVoteChoice.get? (height, round, phase) =
      (pair.2.performStored call).localVoteChoice.get? (height, round, phase) := by
  have emitted_eq := aligned.same.emitted aligned.choices call
  have ahead := (pair.1.atMost_performStored call).currentRound
  have earlier := aligned.choices height round phase (ahead.trans recent)
  have silent : ∀ core : ConsensusCore H, core.emitted call = none →
      (core.performStored call).localVoteChoice = core.localVoteChoice := by
    intro core emits
    apply (core.localVoteChoice_performStored call).resolve_right
    rintro ⟨vote, made, -⟩
    cases emits.symm.trans made
  cases call with
  | makeVote proposal justifyQc phase' =>
      rw [localVoteChoice_makeStored, localVoteChoice_makeStored, emitted_eq]
      split
      · exact earlier
      · rw [OrderedDict.get?_set, OrderedDict.get?_set, earlier]
  | _ =>
      rw [silent pair.1 rfl, silent pair.2 rfl]
      exact earlier

/-- A call that is made in both runs keeps the logs of the cores aligned. -/
theorem Aligned.logs_performStored (aligned : Aligned pair) {call : Call H}
    (saves : pair.1.savedQc call = pair.2.savedQc call)
    (keeps : KeepsOwnVote pair (.both (.call call))) (height round : ℕ) (phase : VotePhase)
    (recent : (pair.1.performStored call).store.pacemakerState.currentRound ≤ round + 1) :
    (pair.1.performStored call).store.voteLog.get?
        (height, round, phase, pair.1.localValidatorId) =
      (pair.2.performStored call).store.voteLog.get?
        (height, round, phase, pair.1.localValidatorId) := by
  obtain ⟨local_eq, -, -⟩ := aligned.identity
  have emitted_eq := aligned.same.emitted aligned.choices call
  have recent_right :
      (pair.2.performStored call).store.pacemakerState.currentRound ≤ round + 1 := by
    obtain ⟨_, _, _, same⟩ := aligned.same.performStored saves emitted_eq
    rwa [same]
  have recent_before := (aligned.saved.atMost_saved call).currentRound.trans recent
  have earlier := aligned.logs height round phase recent_before
  -- Both runs write the same vote, unless it is an inbound one.
  have logged_eq : (∀ vote, call ≠ .acceptVote vote) →
      pair.2.loggedStored call = pair.1.loggedStored call := by
    intro inbound
    have logged : pair.2.loggedVote call = pair.1.loggedVote call := by
      cases call with
      | makeVote => exact emitted_eq
      | acceptVote vote => exact absurd rfl (inbound vote)
      | _ => rfl
    simp only [loggedStored, aligned.same.overflows emitted_eq inbound, logged]
  have left := ownLog_performStored pair.1 call height phase recent
  have right := ownLog_performStored pair.2 call height phase recent_right
  cases call with
  | acceptVote vote =>
      by_cases names : (vote.height, vote.round, vote.phase, vote.voterId) =
        (height, round, phase, pair.1.localValidatorId)
      · simp only [Prod.mk.injEq] at names
        obtain ⟨rfl, rfl, rfl, own⟩ := names
        have own_right : vote.voterId = pair.2.localValidatorId := own.trans local_eq.symm
        by_cases left_records : pair.1.Records vote
        · rw [ownLog_of_records left_records recent own, ← local_eq]
          by_cases right_records : pair.2.Records vote
          · exact (ownLog_of_records right_records recent_right own_right).symm
          · rw [ownLog_of_other recent_right fun _ => right_records, local_eq, ← earlier]
            have logged := (keeps ⟨own, recent_before, left_records.2⟩).resolve_left fun same =>
              right_records ⟨same.mp left_records.1, left_records.2⟩
            rw [AlreadyLogged, own] at logged
            exact logged.symm
        · rw [ownLog_of_other recent fun _ => left_records]
          by_cases right_records : pair.2.Records vote
          · have logged := (keeps ⟨own, recent_before, right_records.2⟩).resolve_left fun same =>
              left_records ⟨same.mpr right_records.1, right_records.2⟩
            rw [AlreadyLogged, own] at logged
            rw [logged, ← local_eq]
            exact (ownLog_of_records right_records recent_right own_right).symm
          · rw [earlier, ← local_eq]
            exact (ownLog_of_other recent_right fun _ => right_records).symm
      · rw [ownLog_of_other recent fun same => absurd same names, earlier, ← local_eq]
        exact (ownLog_of_other recent_right fun same => absurd (local_eq ▸ same) names).symm
  | _ =>
      rw [local_eq, logged_eq (fun _ same => by cases same), ← earlier] at right
      exact left.trans right.symm

theorem pacemaker_acceptStored {core : ConsensusCore H} {vote : Vote H}
    (noQc : core.savedQc (.acceptVote vote) = none) :
    (core.performStored (.acceptVote vote)).pacemaker = core.pacemaker ∧
      (core.performStored (.acceptVote vote)).store.pacemakerState = core.store.pacemakerState := by
  obtain ⟨_, _, _, same⟩ := sameButVotes_acceptStored noQc
  rw [same]
  exact ⟨rfl, rfl⟩

/-- An event that keeps the own votes keeps the cores aligned. -/
theorem Aligned.step (aligned : Aligned pair) {event : PairedEvent H}
    (noQc : FormsNoQc pair event) (keeps : KeepsOwnVote pair event) :
    Aligned (step pair event) := by
  cases event with
  | both event =>
      cases event with
      | call call =>
          exact
            { same := aligned.same.performStored noQc (aligned.same.emitted aligned.choices call)
              saved := aligned.saved.performStored call
              choices := aligned.choices_performStored call
              logs := by
                simp only [PairedRun.step, follow, (identity_performStored pair.1 call).1]
                exact aligned.logs_performStored noQc keeps }
      | restart =>
          obtain ⟨local_eq, -, -⟩ := aligned.identity
          constructor
          case same => exact aligned.same.restart
          all_goals simp only [PairedRun.step, follow, SavedAtMost, store_restart,
            pacemaker_restart, localVoteChoice_restart, localValidatorId_restart, local_eq]
          case saved => exact .refl _
          case choices => exact aligned.logs
          case logs => exact aligned.logs
  | leftOut vote =>
      obtain ⟨pacemaker_eq, saved_eq⟩ := pacemaker_acceptStored noQc
      constructor
      case same => exact (sameButVotes_acceptStored noQc).symm.trans aligned.same
      case saved => exact aligned.saved.performStored _
      case choices =>
        have kept : (pair.1.performStored (.acceptVote vote)).localVoteChoice =
            pair.1.localVoteChoice :=
          (pair.1.localVoteChoice_performStored _).resolve_right (by
            rintro ⟨_, emits, -⟩
            cases emits)
        simp only [PairedRun.step, pacemaker_eq, kept]
        exact aligned.choices
      case logs =>
        simp only [PairedRun.step, saved_eq, (identity_performStored pair.1 (.acceptVote vote)).1]
        intro height round phase recent
        have recent_after :
            (pair.1.performStored (.acceptVote vote)).store.pacemakerState.currentRound ≤
              round + 1 := by
          rwa [saved_eq]
        rw [← aligned.logs height round phase recent]
        by_cases names : (vote.height, vote.round, vote.phase, vote.voterId) =
          (height, round, phase, pair.1.localValidatorId)
        · simp only [Prod.mk.injEq] at names
          obtain ⟨rfl, rfl, rfl, own⟩ := names
          by_cases records : pair.1.Records vote
          · have logged := keeps ⟨own, recent, records.2⟩ records.1
            rw [AlreadyLogged, own] at logged
            rw [ownLog_of_records records recent_after own, logged]
          · exact ownLog_of_other recent_after fun _ => records
        · exact ownLog_of_other recent_after fun same => absurd same names

/-! ## The condition is exact -/

omit [DecidableEq H] [Crypto H] in
theorem eq_some_of_allows [Nontrivial H] {choice : Option H} {blockHash : H}
    (allows : ∀ other, (∀ existing ∈ choice, existing = other) ↔ blockHash = other) :
    choice = some blockHash := by
  cases choice with
  | none =>
      obtain ⟨other, other_ne⟩ := exists_ne blockHash
      exact absurd ((allows other).mp nofun) other_ne.symm
  | some existing =>
      have same := (allows blockHash).mpr rfl existing rfl
      rw [same]

theorem logged_of_sameWilling [Nontrivial H] {left right : ConsensusCore H} {height round : ℕ}
    {phase : VotePhase} {blockHash : H} (slot : Slot height round)
    (left_recent : left.store.pacemakerState.currentRound ≤ round + 1)
    (right_recent : right.store.pacemakerState.currentRound ≤ round + 1)
    (willing : left.restart.willing height round phase = right.restart.willing height round phase)
    (logged : left.store.voteLog.get? (height, round, phase, left.localValidatorId) =
      some blockHash) :
    right.store.voteLog.get? (height, round, phase, right.localValidatorId) = some blockHash := by
  refine eq_some_of_allows fun other => ?_
  have same : other ∈ left.restart.willing height round phase ↔
      other ∈ right.restart.willing height round phase := by rw [willing]
  rw [mem_willing_iff, mem_willing_iff, pacemaker_restart, pacemaker_restart,
    localVoteChoice_restart, localVoteChoice_restart, logged] at same
  simpa [slot, left_recent, right_recent, iff_comm] using same

theorem savedQc_of_not_records {core : ConsensusCore H} {vote : Vote H}
    (refused : ¬ core.Records vote) : core.savedQc (.acceptVote vote) = none := by
  simp only [savedQc, observed]
  split
  next fits =>
    cases returned : (core.acceptVote vote).1 with
    | error message => rfl
    | ok result => exact absurd ⟨(acceptVote_eq_ok.mp returned).1, fits⟩ refused
  · rfl

theorem logged_of_records [Nontrivial H] {left next : ConsensusCore H} {vote : Vote H}
    (noQc : left.savedQc (.acceptVote vote) = none) (records : left.Records vote)
    (own : vote.voterId = left.localValidatorId)
    (recent : left.store.pacemakerState.currentRound ≤ vote.round + 1)
    (next_recent : next.store.pacemakerState.currentRound ≤ vote.round + 1)
    (willing : (left.performStored (.acceptVote vote)).restart.willing vote.height vote.round
        vote.phase = next.restart.willing vote.height vote.round vote.phase) :
    next.store.voteLog.get? (vote.height, vote.round, vote.phase, next.localValidatorId) =
      some vote.blockHash := by
  have after : (left.performStored (.acceptVote vote)).store.pacemakerState.currentRound ≤
      vote.round + 1 := by
    rwa [(pacemaker_acceptStored noQc).2]
  refine logged_of_sameWilling ⟨⟨vote.height_pos, vote.round_pos⟩, records.2⟩ after next_recent
    willing ?_
  rw [(identity_performStored left (.acceptVote vote)).1]
  exact ownLog_of_records records after own

/-- When the cores are still willing to cast the same votes after an event, the event keeps the own
votes. -/
theorem keepsOwnVote_of_sameWilling [Nontrivial H] (aligned : Aligned pair) {event : PairedEvent H}
    (noQc : FormsNoQc pair event) (willing : SameWilling (step pair event)) :
    KeepsOwnVote pair event := by
  obtain ⟨local_eq, -, saved_eq⟩ := aligned.identity
  cases event with
  | leftOut vote =>
      rintro ⟨own, recent, fits⟩ admits
      have recent_right : pair.2.store.pacemakerState.currentRound ≤ vote.round + 1 := by
        rwa [saved_eq]
      have logged := logged_of_records noQc ⟨admits, fits⟩ own recent recent_right
        (willing vote.height vote.round vote.phase).2
      rw [AlreadyLogged, own, aligned.logs _ _ _ recent, ← local_eq]
      exact logged
  | both event =>
      cases event with
      | restart => trivial
      | call call =>
          cases call with
          | acceptVote vote =>
              rintro ⟨own, recent, fits⟩
              have own_right : vote.voterId = pair.2.localValidatorId := own.trans local_eq.symm
              have recent_right : pair.2.store.pacemakerState.currentRound ≤ vote.round + 1 := by
                rwa [saved_eq]
              have restarted := (willing vote.height vote.round vote.phase).2
              by_cases left_records : pair.1.Records vote
              · by_cases right_records : pair.2.Records vote
                · exact .inl (iff_of_true left_records.1 right_records.1)
                · right
                  have noQc_right := savedQc_of_not_records right_records
                  have recent_after :
                      (pair.2.performStored (.acceptVote vote)).store.pacemakerState.currentRound ≤
                        vote.round + 1 := by
                    rwa [(pacemaker_acceptStored noQc_right).2]
                  have logged := logged_of_records (noQc.trans noQc_right) left_records own
                    recent recent_after restarted
                  rw [(identity_performStored pair.2 (.acceptVote vote)).1,
                    ownLog_of_other recent_after fun _ => right_records, local_eq,
                    ← aligned.logs _ _ _ recent] at logged
                  rw [AlreadyLogged, own]
                  exact logged
              · by_cases right_records : pair.2.Records vote
                · right
                  have noQc_left := savedQc_of_not_records left_records
                  have recent_after :
                      (pair.1.performStored (.acceptVote vote)).store.pacemakerState.currentRound ≤
                        vote.round + 1 := by
                    rwa [(pacemaker_acceptStored noQc_left).2]
                  have logged := logged_of_records (noQc.symm.trans noQc_left) right_records
                    own_right recent_right recent_after restarted.symm
                  rw [(identity_performStored pair.1 (.acceptVote vote)).1,
                    ownLog_of_other recent_after fun _ => left_records] at logged
                  rw [AlreadyLogged, own]
                  exact logged
                · exact .inl (iff_of_false (fun admits => left_records ⟨admits, fits⟩)
                    fun admits => right_records ⟨admits, fits⟩)
          | _ => trivial

omit [DecidableEq H] [Crypto H] in
theorem aligned_fresh (chainId epochId : ℕ) {localValidatorId : String}
    {validatorSet : ValidatorSet} (member : validatorSet.contains localValidatorId = true) :
    Aligned (fresh (H := H) chainId epochId localValidatorId validatorSet member,
      fresh chainId epochId localValidatorId validatorSet member) where
  same := .refl _
  saved := .refl _
  choices _ _ _ _ := rfl
  logs _ _ _ _ := rfl

/-- Leaving votes that complete no certificate out of a run changes nothing about the votes that the
core is willing to cast, now and after a restart, exactly when each of them that is accepted for the
local validator repeats its logged vote. -/
theorem sameWilling_iff [Nontrivial H] (chainId epochId : ℕ) {localValidatorId : String}
    {validatorSet : ValidatorSet} (member : validatorSet.contains localValidatorId = true)
    (events : List (PairedEvent H))
    (noQc : Runs.Along step FormsNoQc (fresh chainId epochId localValidatorId validatorSet member,
      fresh chainId epochId localValidatorId validatorSet member) events) :
    Runs.Along step KeepsOwnVote (fresh chainId epochId localValidatorId validatorSet member,
        fresh chainId epochId localValidatorId validatorSet member) events ↔
      ∀ earlier, earlier <+: events → SameWilling (earlier.foldl step
        (fresh chainId epochId localValidatorId validatorSet member,
          fresh chainId epochId localValidatorId validatorSet member)) := by
  have kept : ∀ (pair : ConsensusCore H × ConsensusCore H) (event : PairedEvent H), Aligned pair →
      FormsNoQc pair event → KeepsOwnVote pair event → Aligned (step pair event) :=
    fun pair event aligned noQc keeps => Aligned.step aligned noQc keeps
  have exact_of : ∀ (pair : ConsensusCore H × ConsensusCore H) (event : PairedEvent H),
      Aligned pair → FormsNoQc pair event → SameWilling (step pair event) →
        KeepsOwnVote pair event :=
    fun pair event aligned noQc willing => keepsOwnVote_of_sameWilling aligned noQc willing
  apply Runs.along_iff_always kept (fun pair aligned => Aligned.sameWilling aligned) exact_of noQc
  exact aligned_fresh chainId epochId member

/-! ### A vote under the local validator's name -/

instance : Nontrivial SymbolicDigest := ⟨.filled 1, .filled 2, by simp⟩

open Session

theorem formsNoQc_pairVote {voterId : String} (voterId_ne : voterId ≠ "")
    (known : pairSet.contains voterId = true) (few : pairSet.hasQuorum {voterId} = false) :
    (fresh 1 0 "a" pairSet pairSet_contains).observed
      (.acceptVote (pairVote 1 voterId voterId_ne)) = none := by
  have returned := acceptVote_eq_ok.mpr
    ⟨(⟨rfl, known, nofun⟩ : (fresh 1 0 "a" pairSet pairSet_contains).voteCollector.Admits
      (pairVote 1 voterId voterId_ne) pairSet), rfl⟩
  simp only [observed, returned, Except.toOption, Option.join_some]
  apply if_neg
  change ¬ pairSet.hasQuorum {voterId} = true
  rw [few]
  exact Bool.false_ne_true

/-- After a vote that names the local validator and a restart, the core refuses all other blocks. -/
theorem not_sameWilling_named :
    let core := fresh 1 0 "a" pairSet pairSet_contains
    Runs.Along step FormsNoQc (core, core) [.leftOut (pairVote 1 "a" (by simp))] ∧
      ¬ ∀ earlier, earlier <+: [.leftOut (pairVote 1 "a" (by simp))] →
        SameWilling (earlier.foldl step (core, core)) := by
  have noQc : Runs.Along step FormsNoQc (fresh 1 0 "a" pairSet pairSet_contains,
      fresh 1 0 "a" pairSet pairSet_contains) [.leftOut (pairVote 1 "a" (by simp))] :=
    ⟨formsNoQc_pairVote (by simp) rfl rfl, trivial⟩
  refine ⟨noQc, fun willing => ?_⟩
  have keeps := keepsOwnVote_of_sameWilling (aligned_fresh 1 0 pairSet_contains) noQc.1
    (willing _ (List.prefix_refl _))
  exact nomatch keeps ⟨rfl, Nat.le_succ 1, by decide, by decide⟩ (pairVote_admitted 1)

/-- A vote of the other validator changes nothing. -/
theorem sameWilling_other :
    SameWilling (step (fresh 1 0 "a" pairSet pairSet_contains,
      fresh 1 0 "a" pairSet pairSet_contains) (.leftOut (pairVote 1 "b" (by simp)))) := by
  have noQc : Runs.Along step FormsNoQc (fresh 1 0 "a" pairSet pairSet_contains,
      fresh 1 0 "a" pairSet pairSet_contains) [.leftOut (pairVote 1 "b" (by simp))] :=
    ⟨formsNoQc_pairVote (by simp) rfl rfl, trivial⟩
  refine (sameWilling_iff 1 0 pairSet_contains _ noQc).mp ⟨?_, trivial⟩ _ (List.prefix_refl _)
  rintro ⟨named, -⟩
  exact absurd named (by simp [pairVote, fresh])

end PairedRun

end EZChain
