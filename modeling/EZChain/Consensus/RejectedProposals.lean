import Mathlib.Data.Nat.SuccPred
import EZChain.Consensus.Agreement

/-!
# Rejected proposals

`validate_proposal` observes the justifying certificate before its first check, and `make_vote`
compares the votes cast before only after the proposal was saved.  A rejection therefore leaves the
core as it was exactly when the certificate, and for a conflicting vote also the proposal, had
nothing to add.
-/

namespace EZChain

open Checks

namespace PacemakerState

variable (state : PacemakerState) (round : ℕ)

theorem noteQc_eq_self_iff (lockRound : Option ℕ) :
    state.noteQc round lockRound = state ↔
      round < state.currentRound ∧ round ≤ state.highestQcRound ∧
        (∀ lock ∈ lockRound, lock ≤ state.lockedQcRound) ∧ state.consecutiveLocalTimeouts = 0 := by
  cases state with
  | mk currentRound highestQcRound lockedQcRound highestTcRound lastDecidedRound timeouts =>
      cases lockRound with
      | none => simp [noteQc, eq_comm]
      | some lock => simp [noteQc, eq_comm]

theorem noteDecide_noteQc_eq_self_iff (lockRound : Option ℕ) :
    (state.noteQc round lockRound).noteDecide round = state ↔
      state.noteQc round lockRound = state ∧ round ≤ state.lastDecidedRound := by
  rw [noteQc_eq_self_iff]
  cases state with
  | mk currentRound highestQcRound lockedQcRound highestTcRound lastDecidedRound timeouts =>
      cases lockRound with
      | none => simp [noteQc, noteDecide, eq_comm]; tauto
      | some lock => simp [noteQc, noteDecide, eq_comm]; tauto

end PacemakerState

namespace ConsensusStore

variable {H : Type} (store : ConsensusStore H) (qc : QC H)

theorem updateLockedQc_eq_self_iff :
    store.updateLockedQc qc = store ↔
      store.lockedQc = some qc ∨ ∃ locked ∈ store.lockedQc, qc.round < locked.round := by
  cases store with
  | mk proposals qcs tcs highestQc lockedQc pacemakerState voteLog timeoutLog =>
      simp only [updateLockedQc, mk.injEq, true_and, and_true]
      split
      next moves =>
        refine ⟨fun same => .inl same.symm, ?_⟩
        rintro (same | ⟨locked, mem, later⟩)
        · exact same.symm
        · exact absurd (moves locked mem) (not_le.mpr later)
      next stays =>
        push Not at stays
        exact ⟨fun _ => .inr stays, fun _ => rfl⟩

theorem pruneVoteLog_eq_self_iff (keepRound : ℕ) :
    store.pruneVoteLog keepRound = store ↔ ∀ key ∈ store.voteLog.keys, keepRound ≤ key.2.1 := by
  cases store with
  | mk => simp [pruneVoteLog, OrderedDict.filterKeys_eq_self_iff]

theorem pruneTimeoutLog_eq_self_iff (keepRound : ℕ) :
    store.pruneTimeoutLog keepRound = store ↔
      ∀ key ∈ store.timeoutLog.keys, keepRound ≤ key.2.1 := by
  cases store with
  | mk => simp [pruneTimeoutLog, OrderedDict.filterKeys_eq_self_iff]

theorem savePacemakerState_eq_self_iff (state : PacemakerState) :
    store.savePacemakerState state = store ↔ store.pacemakerState = state := by
  cases store with
  | mk => simp [savePacemakerState, eq_comm]

variable [DecidableEq H]

theorem saveProposal_eq_self_iff (hash : H) (proposal : Proposal H) :
    store.saveProposal hash proposal = store ↔ store.proposals.get? hash = some proposal := by
  rw [← OrderedDict.set_eq_self_iff]
  cases store with
  | mk => simp [saveProposal]

omit [DecidableEq H] in
theorem isHigherQc_self : isHigherQc qc qc = false := by
  simp [isHigherQc]

theorem saveQc_eq_self_iff (hash : H) :
    store.saveQc hash qc = store ↔
      store.qcs.get? hash = some qc ∧
        ∃ highest ∈ store.highestQc, isHigherQc qc highest = false := by
  rw [← OrderedDict.set_eq_self_iff]
  cases store with
  | mk proposals qcs tcs highestQc lockedQc pacemakerState voteLog timeoutLog =>
      cases highestQc with
      | none => simp [saveQc]
      | some highest =>
          simp only [saveQc, mk.injEq, true_and, and_true, Option.mem_some_iff, exists_eq_left']
          refine and_congr_right fun _ => ?_
          split
          next higher =>
            rw [higher]
            refine iff_of_false (fun same => ?_) Bool.noConfusion
            rw [Option.some.inj same, isHigherQc_self] at higher
            cases higher
          next lower => simpa using lower

theorem savePacemakerState_saveQc_eq_self_iff (hash : H) (state : PacemakerState) :
    (store.saveQc hash qc).savePacemakerState state = store ↔
      store.saveQc hash qc = store ∧ store.savePacemakerState state = store := by
  cases store with
  | mk proposals qcs tcs highestQc lockedQc pacemakerState voteLog timeoutLog =>
      simp only [saveQc, savePacemakerState, mk.injEq, true_and, and_true]
      exact and_assoc.symm

theorem lock_eq_self_iff (hash : H) (state : PacemakerState) :
    ((((store.saveQc hash qc).updateLockedQc qc).pruneVoteLog qc.round).pruneTimeoutLog
        qc.round).savePacemakerState state = store ↔
      (store.saveQc hash qc).savePacemakerState state = store ∧ store.updateLockedQc qc = store ∧
        store.pruneVoteLog qc.round = store ∧ store.pruneTimeoutLog qc.round = store := by
  cases store with
  | mk proposals qcs tcs highestQc lockedQc pacemakerState voteLog timeoutLog =>
      simp only [saveQc, updateLockedQc, pruneVoteLog, pruneTimeoutLog, savePacemakerState,
        mk.injEq, true_and, and_true]
      tauto

end ConsensusStore

namespace ConsensusCore

variable {H : Type} [DecidableEq H] [Crypto H] (core : ConsensusCore H)

/-! ## Certificates that were observed before -/

/-- Everything that observing the certificate writes is there already. -/
structure Settled (qc : QC H) : Prop where
  saved : core.store.qcs.get? (qcHash qc) = some qc
  highest : ∃ highest ∈ core.highestQc, ConsensusStore.isHigherQc qc highest = false
  entered : qc.round < core.pacemaker.currentRound
  certified : qc.round ≤ core.pacemaker.highestQcRound
  quiet : core.pacemaker.consecutiveLocalTimeouts = 0
  persisted : core.store.pacemakerState = core.pacemaker
  lockRound : qc.phase = .precommit → qc.round ≤ core.pacemaker.lockedQcRound
  lock : qc.phase = .precommit →
    core.lockedQc = some qc ∨ ∃ locked ∈ core.lockedQc, qc.round < locked.round
  votes : qc.phase = .precommit → ∀ key ∈ core.store.voteLog.keys, qc.round ≤ key.2.1
  timeouts : qc.phase = .precommit → ∀ key ∈ core.store.timeoutLog.keys, qc.round ≤ key.2.1
  decided : qc.phase = .commit → qc.round ≤ core.pacemaker.lastDecidedRound

theorem pacemaker_observeQc_eq_self_iff (qc : QC H) :
    (core.observeQc (some qc)).pacemaker = core.pacemaker ↔
      (qc.round < core.pacemaker.currentRound ∧ qc.round ≤ core.pacemaker.highestQcRound ∧
        (qc.phase = .precommit → qc.round ≤ core.pacemaker.lockedQcRound) ∧
        core.pacemaker.consecutiveLocalTimeouts = 0) ∧
      (qc.phase = .commit → qc.round ≤ core.pacemaker.lastDecidedRound) := by
  cases phase : qc.phase with
  | prepare => simp [observeQc, phase, PacemakerState.noteQc_eq_self_iff]
  | precommit => simp [observeQc, phase, PacemakerState.noteQc_eq_self_iff]
  | commit =>
      simp [observeQc, phase, PacemakerState.noteDecide_noteQc_eq_self_iff,
        PacemakerState.noteQc_eq_self_iff]

theorem store_observeQc_eq_self_iff {qc : QC H}
    (same : (core.observeQc (some qc)).pacemaker = core.pacemaker) :
    (core.observeQc (some qc)).store = core.store ↔
      (core.store.saveQc (qcHash qc) qc = core.store ∧
        core.store.savePacemakerState core.pacemaker = core.store) ∧
      (qc.phase = .precommit → core.store.updateLockedQc qc = core.store ∧
        core.store.pruneVoteLog qc.round = core.store ∧
        core.store.pruneTimeoutLog qc.round = core.store) := by
  simp only [observeQc] at same ⊢
  rw [same]
  split
  next precommit =>
    rw [ConsensusStore.lock_eq_self_iff, ConsensusStore.savePacemakerState_saveQc_eq_self_iff]
    exact and_congr_right fun _ => ⟨fun kept _ => kept, fun kept => kept precommit⟩
  next other =>
    rw [ConsensusStore.savePacemakerState_saveQc_eq_self_iff]
    exact (and_iff_left fun precommit => absurd precommit other).symm

theorem observeQc_eq_self_iff (qc : QC H) :
    core.observeQc (some qc) = core ↔ core.Settled qc := by
  have parts : core.observeQc (some qc) = core ↔
      (core.observeQc (some qc)).pacemaker = core.pacemaker ∧
        (core.observeQc (some qc)).store = core.store := by
    cases core with
    | mk => simp [observeQc, and_comm]
  rw [parts, and_congr_right fun same => core.store_observeQc_eq_self_iff same,
    pacemaker_observeQc_eq_self_iff]
  simp only [ConsensusStore.saveQc_eq_self_iff, ConsensusStore.savePacemakerState_eq_self_iff,
    ConsensusStore.updateLockedQc_eq_self_iff, ConsensusStore.pruneVoteLog_eq_self_iff,
    ConsensusStore.pruneTimeoutLog_eq_self_iff]
  constructor
  · intro unchanged
    obtain ⟨⟨⟨entered, certified, lockRound, quiet⟩, decided⟩, ⟨⟨saved, highest⟩, persisted⟩,
      locks⟩ := unchanged
    exact
      { saved, highest, entered, certified, quiet, persisted, lockRound, decided
        lock := fun precommit => (locks precommit).1
        votes := fun precommit => (locks precommit).2.1
        timeouts := fun precommit => (locks precommit).2.2 }
  · intro settled
    exact ⟨⟨⟨settled.entered, settled.certified, settled.lockRound, settled.quiet⟩,
      settled.decided⟩, ⟨⟨settled.saved, settled.highest⟩, settled.persisted⟩, fun precommit =>
        ⟨settled.lock precommit, settled.votes precommit, settled.timeouts precommit⟩⟩

/-- The justifying certificate, when there is one, was observed before. -/
def Known (justifyQc : Option (QC H)) : Prop := ∀ justify ∈ justifyQc, core.Settled justify

theorem observeQc_eq_iff_known (justifyQc : Option (QC H)) :
    core.observeQc justifyQc = core ↔ core.Known justifyQc := by
  cases justifyQc with
  | none => exact iff_of_true rfl nofun
  | some justify => simp [Known, observeQc_eq_self_iff]

/-! ## Checks in terms of the core before the call -/

/-- What `validate_proposal` asks of a proposal and its certificate. -/
structure Acceptable (proposal : Proposal H) (justifyQc : Option (QC H)) : Prop where
  chain : proposal.chainId = core.chainId
  epoch : proposal.epochId = core.epochId
  validatorSet : proposal.validatorSetHash = core.validatorSet.validatorSetHash
  proposer : core.validatorSet.contains proposal.proposerId = true
  fresh : core.pacemaker.currentRound ≤ proposal.round + 1
  freshJustify : ∀ justify ∈ justifyQc, justify.round ≤ proposal.round
  justify : ∀ hash ∈ proposal.justifyQcHash, ∃ justify ∈ justifyQc, qcHash justify = hash ∧
    justify.validatorSetHash = core.validatorSet.validatorSetHash
  lock : LockPasses core.lockedQc justifyQc proposal.blockHash

theorem currentRound_observeQc (qc : QC H) :
    (core.observeQc (some qc)).pacemaker.currentRound =
      max core.pacemaker.currentRound (qc.round + 1) := by
  cases phase : qc.phase <;>
    simp [observeQc, phase, PacemakerState.noteQc, PacemakerState.noteDecide]

omit [DecidableEq H] [Crypto H] in
theorem lockPasses_lockAfter (locked justifyQc : Option (QC H)) (blockHash : H) :
    LockPasses (lockAfter locked justifyQc) justifyQc blockHash ↔
      LockPasses locked justifyQc blockHash := by
  cases justifyQc with
  | none => exact Iff.rfl
  | some justify =>
      simp only [lockAfter]
      split
      next moves =>
        refine iff_of_true (fun current mem _ justify_mem _ different => ?_)
          fun current mem _ justify_mem _ _ => ?_
        · cases mem
          cases justify_mem
          exact absurd rfl different
        · cases justify_mem
          exact moves.2 current mem
      · exact Iff.rfl

theorem checkProposal_observeQc_eq_ok (proposal : Proposal H) (justifyQc : Option (QC H)) :
    (core.observeQc justifyQc).checkProposal proposal justifyQc = .ok () ↔
      core.Acceptable proposal justifyQc := by
  rw [checkProposal_eq_ok, lockedQc_observeQc, lockPasses_lockAfter]
  simp only [chainId_observeQc, epochId_observeQc, validatorSet_observeQc]
  have rounds : (core.observeQc justifyQc).pacemaker.currentRound ≤ proposal.round + 1 ↔
      core.pacemaker.currentRound ≤ proposal.round + 1 ∧
        ∀ justify ∈ justifyQc, justify.round ≤ proposal.round := by
    cases justifyQc with
    | none => simp [observeQc]
    | some justify => simp [currentRound_observeQc]
  rw [rounds]
  constructor
  · rintro ⟨⟨chain, epoch⟩, validatorSet, proposer, ⟨fresh, freshJustify⟩, justify, lock⟩
    exact ⟨chain, epoch, validatorSet, proposer, fresh, freshJustify, justify, lock⟩
  · intro acceptable
    exact ⟨⟨acceptable.chain, acceptable.epoch⟩, acceptable.validatorSet, acceptable.proposer,
      ⟨acceptable.fresh, acceptable.freshJustify⟩, acceptable.justify, acceptable.lock⟩

/-! ## Rejections -/

/-- When the call raised, the core is what it was before. -/
def KeptOnError {α : Type} (outcome : Except String α × ConsensusCore H) : Prop :=
  ∀ message next, outcome = (.error message, next) → next = core

/-- The local validator has voted for no other block in this phase. -/
def VotesAgree (proposal : Proposal H) (phase : VotePhase) : Prop :=
  ∀ existing ∈ core.localVoteChoice.get? (proposal.height, proposal.round, phase),
    existing = proposal.blockHash

theorem keptOnError_validateProposal (proposal : Proposal H) (justifyQc : Option (QC H)) :
    core.KeptOnError (core.validateProposal proposal justifyQc) ↔
      core.Acceptable proposal justifyQc ∨ core.Known justifyQc := by
  rw [← checkProposal_observeQc_eq_ok, ← observeQc_eq_iff_known]
  simp only [KeptOnError, validateProposal]
  cases (core.observeQc justifyQc).checkProposal proposal justifyQc with
  | error message => simp
  | ok done => simp

theorem proposals_observeQc (justifyQc : Option (QC H)) :
    (core.observeQc justifyQc).store.proposals = core.store.proposals := by
  cases justifyQc with
  | none => rfl
  | some justify =>
      simp only [observeQc]
      split <;> rfl

/-- Saving the proposal after observing the certificate writes another field. -/
theorem saveProposal_observeQc_eq_self_iff (proposal : Proposal H) (justifyQc : Option (QC H)) :
    { core.observeQc justifyQc with
        store := (core.observeQc justifyQc).store.saveProposal (proposalHash proposal)
          proposal } = core ↔
      core.Known justifyQc ∧
        core.store.proposals.get? (proposalHash proposal) = some proposal := by
  rw [← observeQc_eq_iff_known, ← ConsensusStore.saveProposal_eq_self_iff]
  constructor
  · intro same
    have saved : (core.observeQc justifyQc).store.saveProposal (proposalHash proposal) proposal =
        core.store := congrArg store same
    have store_eq : (core.observeQc justifyQc).store = core.store := by
      calc (core.observeQc justifyQc).store
          = { (core.observeQc justifyQc).store.saveProposal (proposalHash proposal) proposal with
              proposals := (core.observeQc justifyQc).store.proposals } := rfl
        _ = { core.store with proposals := core.store.proposals } := by
            rw [saved, proposals_observeQc]
        _ = core.store := rfl
    refine ⟨?_, store_eq ▸ saved⟩
    calc core.observeQc justifyQc
        = { core.observeQc justifyQc with store := (core.observeQc justifyQc).store } := rfl
      _ = { core.observeQc justifyQc with
            store := (core.observeQc justifyQc).store.saveProposal (proposalHash proposal)
              proposal } := by rw [saved, store_eq]
      _ = core := same
  · intro ⟨observed, saved⟩
    rw [observed, saved]

theorem keptOnError_makeVote (proposal : Proposal H) (justifyQc : Option (QC H))
    (phase : VotePhase) :
    core.KeptOnError (core.makeVote proposal justifyQc phase) ↔
      core.Acceptable proposal justifyQc ∧ core.VotesAgree proposal phase ∨
        core.Known justifyQc ∧ (core.Acceptable proposal justifyQc →
          core.store.proposals.get? (proposalHash proposal) = some proposal) := by
  rw [← checkProposal_observeQc_eq_ok]
  simp only [KeptOnError, makeVote, validateProposal]
  cases checked : (core.observeQc justifyQc).checkProposal proposal justifyQc with
  | error message => simp [← observeQc_eq_iff_known]
  | ok done =>
      simp only [localVoteChoice_observeQc, forall_const, true_and,
        ← saveProposal_observeQc_eq_self_iff]
      split
      next agree => exact iff_of_true (fun message next raised => by cases raised) (.inl agree)
      next conflict =>
        rw [VotesAgree, or_iff_right conflict]
        simp

section Sample

/-- A new validator that is alone in its set. -/
def loneCore : ConsensusCore SymbolicDigest :=
  fresh 1 0 "a" CoreSystem.loneSet CoreSystem.loneSet_contains

/-- A precommit certificate of another validator set. -/
def foreignQc : QC SymbolicDigest :=
  { CoreSystem.loneQc Nat.one_pos (.filled 1) .precommit with validatorSetHash := .filled 2 }

/-- A proposal that names that certificate as its justification. -/
def foreignProposal : Proposal SymbolicDigest :=
  { CoreSystem.loneProposal Nat.two_pos (.filled 1) with justifyQcHash := some (qcHash foreignQc) }

end Sample

end ConsensusCore

end EZChain
