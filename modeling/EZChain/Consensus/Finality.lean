import EZChain.Consensus.Sessions

/-!
# Finality and timeouts at the voter

Neither the decided round nor the timed out rounds are consulted when a vote is requested.  A
decided height stays closed, and so does a round that the validator has timed out, as long as the
requests against them fail one of the checks that are made.
-/

namespace EZChain

namespace Session

open Checks ConsensusCore

variable {H : Type} [DecidableEq H] [Crypto H]

/-! ## Decided heights -/

/-- Every vote after a commit certificate is for its block or at a later height. -/
def FinalityKept (session : Session H) (events : List (Event H)) : Prop :=
  ∀ before call after, events = before ++ .call call :: after →
    ∀ vote ∈ (session.run before).core.emitted call,
      ∀ qc ∈ (session.run (before ++ [.call call])).qcs, qc.phase = .commit →
        qc.height < vote.height ∨ vote.blockHash = qc.blockHash

/-- A request in a recent round for another block than a commit certificate of the height or of a
later one fails a check of `make_vote`. -/
def DecidedRequestsFail (session : Session H) (events : List (Event H)) : Prop :=
  ∀ before proposal justifyQc phase after,
    events = before ++ .call (.makeVote proposal justifyQc phase) :: after →
      ∀ qc ∈ (session.run before).qcs ++ justifyQc.toList, qc.phase = .commit →
        proposal.height ≤ qc.height → proposal.blockHash ≠ qc.blockHash →
          (session.run before).Recent justifyQc proposal.round →
            ¬ (session.run before).core.Grants proposal justifyQc phase

variable {session : Session H} {events : List (Event H)}

theorem FinalityKept.requestsFail (kept : session.FinalityKept events) :
    session.DecidedRequestsFail events := by
  intro before proposal justifyQc phase after split qc mem commit height_le block_ne _ granted
  have emits := emitted_makeVote.mpr ⟨granted, rfl⟩
  rcases kept before _ after split _ emits qc (by rwa [run_concat]) commit with later | same
  · exact absurd height_le (not_le.mpr later)
  · exact block_ne same

theorem DecidedRequestsFail.finalityKept (fail : session.DecidedRequestsFail events)
    (inStep : session.InStep) : session.FinalityKept events := by
  intro before call after split vote emits qc mem commit
  obtain ⟨proposal, justifyQc, phase, rfl, -⟩ := emitted_eq_some emits
  obtain ⟨granted, rfl⟩ := emitted_makeVote.mp emits
  by_contra violated
  push Not at violated
  rw [run_concat] at mem
  exact fail before proposal justifyQc phase after split qc mem commit violated.1 violated.2
    (recent_of_grants (inStep.run before) granted) granted

/-- No vote is of a round that the validator has timed out at the height, nor of an earlier one. -/
def TimeoutsKept (session : Session H) (events : List (Event H)) : Prop :=
  ∀ before call after, events = before ++ .call call :: after →
    ∀ vote ∈ (session.run before).core.emitted call,
      ∀ timeout ∈ (session.run before).timeoutVotes, timeout.height = vote.height →
        timeout.round < vote.round

/-- A request in a recent round that is timed out fails a check of `make_vote`. -/
def TimedOutRequestsFail (session : Session H) (events : List (Event H)) : Prop :=
  ∀ before proposal justifyQc phase after,
    events = before ++ .call (.makeVote proposal justifyQc phase) :: after →
      ∀ timeout ∈ (session.run before).timeoutVotes, timeout.height = proposal.height →
        proposal.round ≤ timeout.round →
          (session.run before).Recent justifyQc proposal.round →
            ¬ (session.run before).core.Grants proposal justifyQc phase

theorem TimeoutsKept.requestsFail (kept : session.TimeoutsKept events) :
    session.TimedOutRequestsFail events := by
  intro before proposal justifyQc phase after split timeout mem height_eq round_le _ granted
  have emits := emitted_makeVote.mpr ⟨granted, rfl⟩
  exact absurd round_le (not_le.mpr (kept before _ after split _ emits timeout mem height_eq))

theorem TimedOutRequestsFail.timeoutsKept (fail : session.TimedOutRequestsFail events)
    (inStep : session.InStep) : session.TimeoutsKept events := by
  intro before call after split vote emits timeout mem height_eq
  obtain ⟨proposal, justifyQc, phase, rfl, -⟩ := emitted_eq_some emits
  obtain ⟨granted, rfl⟩ := emitted_makeVote.mp emits
  by_contra violated
  exact fail before proposal justifyQc phase after split timeout mem height_eq (not_lt.mp violated)
    (recent_of_grants (inStep.run before) granted) granted

end Session

end EZChain
