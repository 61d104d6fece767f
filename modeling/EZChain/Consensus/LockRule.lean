import EZChain.Consensus.Agreement

/-!
# Lock rule and phase order of a single core

A core is called in any order with any arguments.  A vote against the lock needs a justifying
certificate only when one was given, and a vote for a later phase is granted whether or not the
certificate of the phase before was seen.
-/

namespace EZChain

open Checks

variable {H : Type} [DecidableEq H] [Crypto H]

namespace ConsensusCore

/-! ## The lock rule -/

/-- The result of `make_vote` respects the lock: a vote for another block was justified by a
certificate that is not older than the lock or certifies the locked block. -/
def RespectsLock (core : ConsensusCore H) (proposal : Proposal H) (justifyQc : Option (QC H))
    (phase : VotePhase) : Prop :=
  ∀ vote next, core.makeVote proposal justifyQc phase = (.ok vote, next) →
    ∀ locked ∈ core.lockedQc, vote.blockHash ≠ locked.blockHash →
      ∃ justify ∈ justifyQc, locked.round ≤ justify.round ∨ justify.blockHash = locked.blockHash

/-- The proposal passes every other check of `make_vote`. -/
def PassesOtherChecks (core : ConsensusCore H) (proposal : Proposal H) (phase : VotePhase) :
    Prop :=
  (proposal.chainId = core.chainId ∧ proposal.epochId = core.epochId) ∧
    proposal.validatorSetHash = core.validatorSet.validatorSetHash ∧
    core.validatorSet.contains proposal.proposerId = true ∧
    core.pacemaker.currentRound ≤ proposal.round + 1 ∧ proposal.justifyQcHash = none ∧
    ∀ existing ∈ core.localVoteChoice.get? (proposal.height, proposal.round, phase),
      existing = proposal.blockHash

theorem respectsLock_of_justify (core : ConsensusCore H) (proposal : Proposal H) (justify : QC H)
    (phase : VotePhase) : core.RespectsLock proposal (some justify) phase := by
  intro vote next made locked mem block_ne
  obtain ⟨checked, -, rfl, -⟩ := makeVote_eq_ok made
  have passes := (checkProposal_eq_ok.mp checked).2.2.2.2.2
  rw [lockedQc_observeQc] at passes
  refine ⟨justify, rfl, ?_⟩
  obtain ⟨later, mem_later, le⟩ := exists_mem_lockAfter (some justify) mem
  rcases mem_lockAfter mem_later with before | observed
  · obtain rfl : later = locked := Option.mem_unique before mem
    by_contra neither
    push Not at neither
    exact absurd (passes later mem_later justify rfl block_ne neither.2) (not_le.mpr neither.1)
  · exact .inl (Option.mem_some_iff.mp observed ▸ le)

theorem not_respectsLock_of_passes {core : ConsensusCore H} {proposal : Proposal H}
    {phase : VotePhase} {locked : QC H} (mem : locked ∈ core.lockedQc)
    (block_ne : locked.blockHash ≠ proposal.blockHash)
    (passes : core.PassesOtherChecks proposal phase) : ¬ core.RespectsLock proposal none phase := by
  intro respects
  obtain ⟨chain, set, proposer, current, unjustified, consistent⟩ := passes
  have checked : (core.observeQc none).checkProposal proposal none = .ok () :=
    checkProposal_eq_ok.mpr ⟨chain, set, proposer, current, by simp [unjustified], nofun⟩
  obtain ⟨justify, given, -⟩ :=
    respects _ _ (makeVote_of_checked checked consistent) locked mem block_ne.symm
  exact absurd given (by simp)

/-- The lock is respected exactly when the proposal is justified by some certificate, is for the
locked block, or fails another check. -/
theorem respectsLock_iff (core : ConsensusCore H) (proposal : Proposal H)
    (justifyQc : Option (QC H)) (phase : VotePhase) :
    core.RespectsLock proposal justifyQc phase ↔
      justifyQc ≠ none ∨ (∀ locked ∈ core.lockedQc, locked.blockHash = proposal.blockHash) ∨
        ¬ core.PassesOtherChecks proposal phase := by
  cases justifyQc with
  | some justify =>
      exact iff_of_true (respectsLock_of_justify core proposal justify phase) (.inl nofun)
  | none =>
      simp only [ne_eq, not_true_eq_false, false_or]
      constructor
      · intro respects
        by_contra violated
        push Not at violated
        obtain ⟨⟨locked, mem, block_ne⟩, passes⟩ := violated
        exact not_respectsLock_of_passes mem block_ne passes respects
      · intro condition vote next made locked mem block_ne
        obtain ⟨checked, consistent, rfl, -⟩ := makeVote_eq_ok made
        obtain ⟨chain, set, proposer, current, justified, -⟩ := checkProposal_eq_ok.mp checked
        rcases condition with same | fails
        · exact absurd (same locked mem).symm block_ne
        · refine absurd ⟨chain, set, proposer, current, ?_, consistent⟩ fails
          refine Option.eq_none_iff_forall_not_mem.mpr fun hash mem => ?_
          obtain ⟨justify, given, -⟩ := justified hash mem
          cases given

/-- A core locked on one block votes for another one that is proposed without a certificate. -/
theorem not_respectsLock_unjustified :
    ¬ ((fresh 1 0 "a" CoreSystem.loneSet CoreSystem.loneSet_contains).run
        [.observeQc (some (CoreSystem.loneQc one_pos (.filled 1) .precommit))]).RespectsLock
      (CoreSystem.loneProposal Nat.two_pos (.filled 2)) none .prepare := by
  have block_ne : (CoreSystem.loneQc one_pos (.filled 1) .precommit).blockHash ≠
      (CoreSystem.loneProposal Nat.two_pos (.filled 2)).blockHash := by
    simp [CoreSystem.loneQc, CoreSystem.loneProposal]
  refine not_respectsLock_of_passes rfl block_ne ⟨⟨rfl, rfl⟩, rfl, rfl, ?_, rfl, forall_mem_none _⟩
  change max 1 (1 + 1) ≤ 2 + 1
  omega

/-! ## The order of the phases -/

/-- The certificates that the core observes in the course of calls. -/
def seen (core : ConsensusCore H) : List (Call H) → List (QC H)
  | [] => []
  | call :: calls => (core.observed call).toList ++ (core.perform call).seen calls

theorem seen_append (core : ConsensusCore H) (left right : List (Call H)) :
    core.seen (left ++ right) = core.seen left ++ (core.run left).seen right := by
  induction left generalizing core with
  | nil => rfl
  | cons call calls induction =>
      rw [List.cons_append, seen, seen, induction, List.append_assoc]
      rfl

theorem seen_concat (core : ConsensusCore H) (calls : List (Call H)) (call : Call H) :
    core.seen (calls ++ [call]) = core.seen calls ++ ((core.run calls).observed call).toList := by
  rw [seen_append, seen, seen, List.append_nil]

theorem exists_locked_of_seen (core : ConsensusCore H) (calls : List (Call H)) {qc : QC H}
    (mem : qc ∈ core.seen calls) (precommit : qc.phase = .precommit) :
    ∃ locked ∈ (core.run calls).lockedQc, qc.round ≤ locked.round := by
  induction calls using List.reverseRecOn with
  | nil => simp [seen] at mem
  | append_singleton calls call induction =>
      rw [run_concat, lockedQc_perform]
      rw [seen_concat, List.mem_append, Option.mem_toList] at mem
      rcases mem with before | now
      · obtain ⟨locked, mem_locked, le⟩ := induction before
        obtain ⟨next, mem_next, le_next⟩ := exists_mem_lockAfter _ mem_locked
        exact ⟨next, mem_next, le.trans le_next⟩
      · rw [Option.mem_def.mp now]
        exact exists_mem_lockAfter_self _ precommit

/-- A certificate for the block of a round in the phase before the given one. -/
def Opens (qc : QC H) (height round : ℕ) (blockHash : H) (phase : VotePhase) : Prop :=
  phase.previous = some qc.phase ∧ qc.height = height ∧ qc.round = round ∧
    qc.blockHash = blockHash

/-- Every vote of a later phase follows a certificate of the phase before, and at a commit vote
the lock is on the block or on a later round. -/
def VotesInOrder (core : ConsensusCore H) (calls : List (Call H)) : Prop :=
  ∀ before call after, calls = before ++ call :: after →
    ∀ vote ∈ (core.run before).emitted call,
      (vote.phase ≠ .prepare → ∃ qc ∈ core.seen (before ++ [call]),
        Opens qc vote.height vote.round vote.blockHash vote.phase) ∧
      (vote.phase = .commit → ∃ locked ∈ (core.run (before ++ [call])).lockedQc,
        locked.blockHash = vote.blockHash ∨ vote.round < locked.round)

/-- The checks that `make_vote` makes. -/
def Grants (core : ConsensusCore H) (proposal : Proposal H) (justifyQc : Option (QC H))
    (phase : VotePhase) : Prop :=
  (core.observeQc justifyQc).checkProposal proposal justifyQc = .ok () ∧
    ∀ existing ∈ core.localVoteChoice.get? (proposal.height, proposal.round, phase),
      existing = proposal.blockHash

/-- A vote of a later phase is requested after the core was shown the certificate that opens the
phase, and a commit vote while the lock is not on another block of the same round. -/
def RequestInOrder (core : ConsensusCore H) (before : List (Call H)) : Call H → Prop
  | .makeVote proposal justifyQc phase =>
      (core.run before).Grants proposal justifyQc phase →
        (phase ≠ .prepare → ∃ qc ∈ core.seen before ++ justifyQc.toList,
          Opens qc proposal.height proposal.round proposal.blockHash phase) ∧
        (phase = .commit → ∀ locked ∈ lockAfter (core.run before).lockedQc justifyQc,
          locked.round = proposal.round → locked.blockHash = proposal.blockHash)
  | _ => True

theorem VotesInOrder.requestInOrder {core : ConsensusCore H} {calls : List (Call H)}
    (inOrder : core.VotesInOrder calls) (before : List (Call H)) {after : List (Call H)}
    {call : Call H} (split : calls = before ++ call :: after) :
    core.RequestInOrder before call := by
  cases call with
  | makeVote proposal justifyQc phase =>
      rintro ⟨checked, consistent⟩
      have emits : (core.run before).emitted (.makeVote proposal justifyQc phase) =
          some ((core.run before).localVote proposal phase) := by
        simp only [emitted, makeVote_of_checked checked consistent, Except.toOption]
      obtain ⟨opened, locked⟩ := inOrder before _ after split _ emits
      rw [seen_concat] at opened
      rw [run_concat, lockedQc_perform] at locked
      refine ⟨opened, fun commit current mem same_round => ?_⟩
      obtain ⟨other, mem_other, on_block | later⟩ := locked commit
      · exact Option.mem_unique mem mem_other ▸ on_block
      · obtain rfl : current = other := Option.mem_unique mem mem_other
        simp only [localVote] at later
        omega
  | _ => trivial

/-- Votes come in order exactly when they are requested in order: `make_vote` does not look at
the certificates of the earlier phases. -/
theorem votesInOrder_iff (core : ConsensusCore H) (calls : List (Call H)) :
    core.VotesInOrder calls ↔ ∀ before call after, calls = before ++ call :: after →
      core.RequestInOrder before call := by
  constructor
  · exact fun inOrder before call after split => inOrder.requestInOrder before split
  · intro requested before call after split vote emits
    obtain ⟨proposal, justifyQc, phase, rfl, rfl, -⟩ := emitted_eq_some emits
    have granted : (core.run before).Grants proposal justifyQc phase := by
      simp only [emitted] at emits
      cases outcome : (core.run before).makeVote proposal justifyQc phase with
      | mk result next =>
          rw [outcome] at emits
          cases result with
          | error message => simp [Except.toOption] at emits
          | ok vote =>
              obtain ⟨checked, consistent, -⟩ := makeVote_eq_ok outcome
              exact ⟨checked, consistent⟩
    obtain ⟨opened, unrivaled⟩ := requested before _ after split granted
    have seen_eq : core.seen (before ++ [.makeVote proposal justifyQc phase]) =
        core.seen before ++ justifyQc.toList := core.seen_concat before _
    rw [← seen_eq] at opened
    refine ⟨opened, fun commit => ?_⟩
    -- The certificate that opened the commit phase has moved the lock to its round or beyond.
    have commit_phase : phase = .commit := commit
    obtain ⟨qc, mem, previous, -, round_eq, -⟩ := opened (by simp [commit_phase])
    have precommit : qc.phase = .precommit := by
      rw [commit_phase] at previous
      exact (Option.some.inj previous).symm
    obtain ⟨locked, mem_locked, le⟩ := core.exists_locked_of_seen _ mem precommit
    refine ⟨locked, mem_locked, ?_⟩
    rw [run_concat, lockedQc_perform] at mem_locked
    rcases eq_or_lt_of_le (round_eq ▸ le) with same | later
    · exact .inl (unrivaled commit_phase locked mem_locked same.symm)
    · exact .inr later

/-- A new core grants a precommit vote without having seen any certificate. -/
theorem not_votesInOrder_precommit :
    ¬ (fresh 1 0 "a" CoreSystem.loneSet CoreSystem.loneSet_contains).VotesInOrder
      [.makeVote (CoreSystem.loneProposal one_pos (.filled 1)) none .precommit] := by
  intro inOrder
  have granted : (fresh 1 0 "a" CoreSystem.loneSet CoreSystem.loneSet_contains).Grants
      (CoreSystem.loneProposal one_pos (.filled 1)) none .precommit := by
    refine ⟨checkProposal_eq_ok.mpr ⟨⟨rfl, rfl⟩, rfl, rfl, ?_, nofun, nofun⟩, nofun⟩
    change 1 ≤ 1 + 1
    omega
  obtain ⟨qc, mem, -⟩ := (inOrder.requestInOrder [] rfl granted).1 nofun
  cases mem

end ConsensusCore

end EZChain
