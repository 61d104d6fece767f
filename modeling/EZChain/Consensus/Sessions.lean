import EZChain.Consensus.Restart

/-!
# Sessions of a validator

A validator's core is called in any order and is built again from its store any number of times.
A session keeps what its calls have brought about, so that later results can speak about it.  The
pacemaker's rounds stay in step with the stored certificates throughout a session.
-/

namespace EZChain

variable {H : Type}

/-- What happens to a validator: a call of its core, or a restart of its process between two
calls. -/
inductive Event (H : Type) where
  | call (call : ConsensusCore.Call H)
  | restart

/-- A core with the certificates that it has observed, the votes and timeout votes that it has
returned and the votes that it has accepted, each in order. -/
structure Session (H : Type) where
  /-- The running core. -/
  core : ConsensusCore H
  /-- History: the certificates that the core was given. -/
  qcs : List (QC H)
  /-- History: the timeout certificates that the core was given. -/
  tcs : List (TC H)
  /-- History: the votes that the core returned. -/
  votes : List (Vote H)
  /-- History: the timeout votes that the core returned. -/
  timeoutVotes : List (TimeoutVote H)
  /-- History: the votes that the core accepted. -/
  accepted : List (Vote H)

/-- The counters of a pacemaker have not decreased. -/
structure PacemakerState.AtMost (earlier later : PacemakerState) : Prop where
  currentRound : earlier.currentRound ≤ later.currentRound
  highestQcRound : earlier.highestQcRound ≤ later.highestQcRound
  highestTcRound : earlier.highestTcRound ≤ later.highestTcRound
  lockedQcRound : earlier.lockedQcRound ≤ later.lockedQcRound
  lastDecidedRound : earlier.lastDecidedRound ≤ later.lastDecidedRound

namespace PacemakerState

theorem AtMost.refl (state : PacemakerState) : state.AtMost state :=
  ⟨le_rfl, le_rfl, le_rfl, le_rfl, le_rfl⟩

theorem AtMost.trans {first second third : PacemakerState} (left : first.AtMost second)
    (right : second.AtMost third) : first.AtMost third where
  currentRound := left.currentRound.trans right.currentRound
  highestQcRound := left.highestQcRound.trans right.highestQcRound
  highestTcRound := left.highestTcRound.trans right.highestTcRound
  lockedQcRound := left.lockedQcRound.trans right.lockedQcRound
  lastDecidedRound := left.lastDecidedRound.trans right.lastDecidedRound

/-- The rounds of a pacemaker after a certificate. -/
theorem afterQc_some (state : PacemakerState) (qc : QC H) :
    (state.afterQc (some qc)).currentRound = max state.currentRound (qc.round + 1) ∧
      (state.afterQc (some qc)).highestQcRound = max state.highestQcRound qc.round ∧
      (state.afterQc (some qc)).highestTcRound = state.highestTcRound ∧
      (state.afterQc (some qc)).lockedQcRound =
        (if qc.phase = .precommit then max state.lockedQcRound qc.round else state.lockedQcRound) ∧
      (state.afterQc (some qc)).lastDecidedRound =
        if qc.phase = .commit then max state.lastDecidedRound qc.round
        else state.lastDecidedRound := by
  cases phase : qc.phase <;> simp [afterQc, noteQc, noteDecide, phase]

theorem atMost_afterQc (state : PacemakerState) (qc : Option (QC H)) :
    state.AtMost (state.afterQc qc) := by
  cases qc with
  | none => exact .refl state
  | some qc =>
      obtain ⟨current, highest, timeout, locked, decided⟩ := afterQc_some state qc
      constructor
      · omega
      · omega
      · omega
      · rw [locked]
        split <;> omega
      · rw [decided]
        split <;> omega

theorem atMost_afterTc (state : PacemakerState) (tc : Option (TC H)) :
    state.AtMost (state.afterTc tc) := by
  cases tc with
  | none => exact .refl state
  | some tc => exact ⟨le_max_left _ _, le_rfl, le_max_left _ _, le_rfl, le_rfl⟩

theorem lt_currentRound_afterTc (state : PacemakerState) {tc : Option (TC H)} {observed : TC H}
    (mem : observed ∈ tc) : observed.round < (state.afterTc tc).currentRound := by
  obtain rfl := mem
  exact Nat.lt_of_succ_le (le_max_right _ _)

end PacemakerState

namespace ConsensusCore

/-- The round of a certificate, or 0 when it is absent. -/
def roundOf (qc : Option (QC H)) : ℕ := (qc.map QC.round).getD 0

@[simp]
theorem roundOf_none : roundOf (none : Option (QC H)) = 0 := rfl

@[simp]
theorem roundOf_some (qc : QC H) : roundOf (some qc) = qc.round := rfl

theorem roundOf_highestAfter (highest : Option (QC H)) (qc : QC H) :
    roundOf (highestAfter highest (some qc)) = max (roundOf highest) qc.round := by
  cases highest with
  | none => simp [highestAfter]
  | some current =>
      simp only [highestAfter, ConsensusStore.isHigherQc, roundOf_some]
      split_ifs with different higher higher
      · have later : current.round < qc.round := by simpa using higher
        simp only [roundOf_some]
        omega
      · have earlier : qc.round ≤ current.round := by simpa using higher
        simp only [roundOf_some]
        omega
      · simp only [roundOf_some]
        omega
      · simp only [roundOf_some]
        omega

theorem roundOf_lockAfter (locked : Option (QC H)) (qc : QC H) :
    roundOf (lockAfter locked (some qc)) =
      if qc.phase = .precommit then max (roundOf locked) qc.round else roundOf locked := by
  by_cases precommit : qc.phase = .precommit
  · cases locked with
    | none => simp [lockAfter, precommit]
    | some current =>
        simp only [lockAfter, precommit, true_and, Option.mem_some_iff, forall_eq', if_true,
          roundOf_some]
        split_ifs with later
        · simp [later]
        · simp [(not_le.mp later).le]
  · simp [lockAfter, precommit]

theorem atMost_perform [DecidableEq H] [Crypto H] (core : ConsensusCore H) (call : Call H) :
    core.pacemaker.AtMost (core.perform call).pacemaker := by
  rw [pacemaker_perform]
  exact (PacemakerState.atMost_afterQc _ _).trans (PacemakerState.atMost_afterTc _ _)

end ConsensusCore

namespace Session

open ConsensusCore

/-- The session of a core before anything happens to it. -/
def initial (core : ConsensusCore H) : Session H := ⟨core, [], [], [], [], []⟩

variable [DecidableEq H] [Crypto H]

def step (session : Session H) : Event H → Session H
  | .call call =>
      { core := session.core.perform call
        qcs := session.qcs ++ (session.core.observed call).toList
        tcs := session.tcs ++ (session.core.observedTc call).toList
        votes := session.votes ++ (session.core.emitted call).toList
        timeoutVotes := session.timeoutVotes ++ (session.core.emittedTimeout call).toList
        accepted := session.accepted ++ (session.core.acceptedVote call).toList }
  | .restart => { session with core := session.core.restart }

/-- The session after events in the given order. -/
def run (session : Session H) (events : List (Event H)) : Session H := events.foldl step session

theorem run_append (session : Session H) (left right : List (Event H)) :
    session.run (left ++ right) = (session.run left).run right :=
  List.foldl_append

theorem run_concat (session : Session H) (events : List (Event H)) (event : Event H) :
    session.run (events ++ [event]) = (session.run events).step event := by
  rw [run_append]
  rfl

/-! ## The pacemaker and the certificates -/

/-- The pacemaker is saved and ahead of all certificates, and its rounds are those of the stored
certificates. -/
structure InStep (session : Session H) : Prop where
  saved : session.core.Saved
  highest : session.core.pacemaker.highestQcRound = roundOf session.core.highestQc
  locked : session.core.pacemaker.lockedQcRound = roundOf session.core.lockedQc
  qcs : ∀ qc ∈ session.qcs, qc.round < session.core.pacemaker.currentRound
  tcs : ∀ tc ∈ session.tcs, tc.round < session.core.pacemaker.currentRound
  decided_le : session.core.pacemaker.lastDecidedRound ≤ session.core.pacemaker.highestQcRound
  locked_le : session.core.pacemaker.lockedQcRound ≤ session.core.pacemaker.highestQcRound

omit [DecidableEq H] [Crypto H] in
theorem inStep_fresh (chainId epochId : ℕ) {localValidatorId : String}
    {validatorSet : ValidatorSet} (member : validatorSet.contains localValidatorId = true) :
    (initial (fresh (H := H) chainId epochId localValidatorId validatorSet member)).InStep where
  saved := rfl
  highest := rfl
  locked := rfl
  qcs := nofun
  tcs := nofun
  decided_le := le_rfl
  locked_le := le_rfl

theorem atMost_step {session : Session H} (inStep : session.InStep) (event : Event H) :
    session.core.pacemaker.AtMost (session.step event).core.pacemaker := by
  cases event with
  | call call => exact atMost_perform session.core call
  | restart =>
      simp only [step, pacemaker_restart]
      exact inStep.saved ▸ .refl _

theorem InStep.step {session : Session H} (inStep : session.InStep) (event : Event H) :
    (session.step event).InStep := by
  have ahead := (atMost_step inStep event).currentRound
  cases event with
  | restart =>
      have pacemaker_eq : session.core.restart.pacemaker = session.core.pacemaker := by
        rw [pacemaker_restart, inStep.saved]
      constructor
      case saved =>
        simp only [Session.step, Saved, store_restart, pacemaker_restart]
      all_goals simp only [Session.step, pacemaker_eq, highestQc_restart, lockedQc_restart]
      case highest => exact inStep.highest
      case locked => exact inStep.locked
      case qcs => exact inStep.qcs
      case tcs => exact inStep.tcs
      case decided_le => exact inStep.decided_le
      case locked_le => exact inStep.locked_le
  | call call =>
      have rounds : ∀ state : PacemakerState,
          (state.afterTc (session.core.observedTc call)).highestQcRound = state.highestQcRound ∧
            (state.afterTc (session.core.observedTc call)).lockedQcRound = state.lockedQcRound ∧
            (state.afterTc (session.core.observedTc call)).lastDecidedRound =
              state.lastDecidedRound := by
        intro state
        cases session.core.observedTc call <;> exact ⟨rfl, rfl, rfl⟩
      obtain ⟨highest_eq, locked_eq, decided_eq⟩ :=
        rounds (session.core.pacemaker.afterQc (session.core.observed call))
      have highest := inStep.highest
      have locked := inStep.locked
      have decided_le := inStep.decided_le
      have locked_le := inStep.locked_le
      simp only [Session.step, pacemaker_perform] at ahead
      constructor
      case saved => exact inStep.saved.perform call
      all_goals simp only [Session.step, pacemaker_perform, highest_eq, locked_eq, decided_eq,
        highestQc_perform, lockedQc_perform]
      case qcs =>
        intro qc mem
        rw [List.mem_append, Option.mem_toList] at mem
        rcases mem with before | now
        · exact (inStep.qcs qc before).trans_le ahead
        · exact (lt_currentRound_afterQc _ now).trans_le
            (PacemakerState.atMost_afterTc _ _).currentRound
      case tcs =>
        intro tc mem
        rw [List.mem_append, Option.mem_toList] at mem
        rcases mem with before | now
        · exact (inStep.tcs tc before).trans_le ahead
        · exact PacemakerState.lt_currentRound_afterTc _ now
      all_goals
        cases session.core.observed call with
        | none => assumption
        | some qc =>
            obtain ⟨-, highest_after, -, locked_after, decided_after⟩ :=
              PacemakerState.afterQc_some session.core.pacemaker qc
            simp only [highest_after, locked_after, decided_after, roundOf_highestAfter,
              roundOf_lockAfter]
            first
              | omega
              | split_ifs <;> omega

theorem InStep.run {session : Session H} (inStep : session.InStep) (events : List (Event H)) :
    (session.run events).InStep := by
  induction events using List.reverseRecOn with
  | nil => exact inStep
  | append_singleton events event induction =>
      rw [run_concat]
      exact induction.step event

theorem atMost_run {session : Session H} (inStep : session.InStep) (events : List (Event H)) :
    session.core.pacemaker.AtMost (session.run events).core.pacemaker := by
  induction events using List.reverseRecOn with
  | nil => exact .refl _
  | append_singleton events event induction =>
      rw [run_concat]
      exact induction.trans (atMost_step (inStep.run events) event)

/-- In every session from an empty store the core and its pacemaker stay in step, and no counter of
the pacemaker ever decreases. -/
theorem inStep_of_run (chainId epochId : ℕ) {localValidatorId : String}
    {validatorSet : ValidatorSet} (member : validatorSet.contains localValidatorId = true)
    (events later : List (Event H)) :
    let session := initial (fresh chainId epochId localValidatorId validatorSet member)
    (session.run events).InStep ∧
      (session.run events).core.pacemaker.AtMost
        (session.run (events ++ later)).core.pacemaker := by
  intro session
  have inStep := (inStep_fresh chainId epochId member).run events
  refine ⟨inStep, ?_⟩
  rw [run_append]
  exact atMost_run inStep later

/-- A core that has adopted a certificate of three members is built again before it times out. -/
theorem inStep_of_run_four :
    let session := initial (fresh 1 0 "d" CoreSystem.fourSet rfl)
    let events := [.call (.observeQc (some (CoreSystem.fourQc one_pos .precommit))), .restart]
    let later := [.call (.makeTimeoutVote 1 2), .restart]
    (session.run events).InStep ∧ (session.run events).core.pacemaker.AtMost
      (session.run (events ++ later)).core.pacemaker :=
  inStep_of_run 1 0 rfl _ _

/-! ## Requests for votes -/

/-- A round is not older than any certificate, the given one included. -/
def Recent (session : Session H) (justifyQc : Option (QC H)) (round : ℕ) : Prop :=
  (∀ qc ∈ session.qcs ++ justifyQc.toList, qc.round ≤ round) ∧ ∀ tc ∈ session.tcs, tc.round ≤ round

/-- A vote is returned when and only when the checks of `make_vote` pass. -/
theorem emitted_makeVote {core : ConsensusCore H} {proposal : Proposal H}
    {justifyQc : Option (QC H)} {phase : VotePhase} {vote : Vote H} :
    core.emitted (.makeVote proposal justifyQc phase) = some vote ↔
      core.Grants proposal justifyQc phase ∧ vote = core.localVote proposal phase := by
  constructor
  · intro emits
    simp only [emitted] at emits
    cases outcome : core.makeVote proposal justifyQc phase with
    | mk result next =>
        rw [outcome] at emits
        cases result with
        | error message => cases emits
        | ok made =>
            obtain ⟨checked, consistent, vote_eq, -⟩ := makeVote_eq_ok outcome
            exact ⟨⟨checked, consistent⟩, (Option.some.inj emits).symm.trans vote_eq⟩
  · rintro ⟨⟨checked, consistent⟩, rfl⟩
    simp only [emitted, makeVote_of_checked checked consistent, Except.toOption]

/-- The checks only pass for a recent round. -/
theorem recent_of_grants {session : Session H} (inStep : session.InStep) {proposal : Proposal H}
    {justifyQc : Option (QC H)} {phase : VotePhase}
    (granted : session.core.Grants proposal justifyQc phase) :
    session.Recent justifyQc proposal.round := by
  have current := (checkProposal_eq_ok.mp granted.1).2.2.2.1
  rw [pacemaker_observeQc] at current
  have ahead := (PacemakerState.atMost_afterQc session.core.pacemaker justifyQc).currentRound
  constructor
  · intro qc mem
    rw [List.mem_append, Option.mem_toList] at mem
    rcases mem with before | given
    · have := inStep.qcs qc before
      omega
    · have := lt_currentRound_afterQc session.core.pacemaker given
      omega
  · intro tc mem
    have := inStep.tcs tc mem
    omega

end Session

end EZChain
