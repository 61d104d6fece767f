import EZChain.Consensus.Core

/-!
# Calls of a consensus core

The public calls of a core as data, with the core after a call, the vote that a call emits and the
certificate that a call observes.  A call writes the lock only through the certificate it observes
and the local vote choices only when it emits a vote.
-/

namespace EZChain

open Checks

variable {H : Type}

namespace ConsensusCore

/-- A call of the core. -/
inductive Call (H : Type) where
  | observeQc (qc : Option (QC H))
  | observeTc (tc : Option (TC H))
  | validateProposal (proposal : Proposal H) (justifyQc : Option (QC H))
  | makeVote (proposal : Proposal H) (justifyQc : Option (QC H)) (phase : VotePhase)
  | acceptVote (vote : Vote H)
  | makeTimeoutVote (height round : ℕ)
  | acceptTimeoutVote (timeoutVote : TimeoutVote H)

/-- The lock after a certificate was observed. -/
def lockAfter (locked : Option (QC H)) : Option (QC H) → Option (QC H)
  | none => locked
  | some qc =>
      if qc.phase = .precommit ∧ ∀ current ∈ locked, current.round ≤ qc.round then some qc
      else locked

variable [DecidableEq H] [Crypto H]

/-- The core after a call, returned or raised. -/
def perform (core : ConsensusCore H) : Call H → ConsensusCore H
  | .observeQc qc => core.observeQc qc
  | .observeTc tc => core.observeTc tc
  | .validateProposal proposal justifyQc => (core.validateProposal proposal justifyQc).2
  | .makeVote proposal justifyQc phase => (core.makeVote proposal justifyQc phase).2
  | .acceptVote vote => (core.acceptVote vote).2
  | .makeTimeoutVote height round => (core.makeTimeoutVote height round).2
  | .acceptTimeoutVote timeoutVote => (core.acceptTimeoutVote timeoutVote).2

/-- The vote that a call returns. -/
def emitted (core : ConsensusCore H) : Call H → Option (Vote H)
  | .makeVote proposal justifyQc phase => (core.makeVote proposal justifyQc phase).1.toOption
  | _ => none

/-- The certificate that a call observes, given to it or formed by it. -/
def observed (core : ConsensusCore H) : Call H → Option (QC H)
  | .observeQc qc => qc
  | .validateProposal _ justifyQc => justifyQc
  | .makeVote _ justifyQc _ => justifyQc
  | .acceptVote vote => (core.acceptVote vote).1.toOption.join
  | _ => none

/-! ## Observing a certificate -/

section ObserveQc

variable (core : ConsensusCore H) (qc : Option (QC H))

@[simp]
theorem chainId_observeQc : (core.observeQc qc).chainId = core.chainId := by
  cases qc <;> rfl

@[simp]
theorem epochId_observeQc : (core.observeQc qc).epochId = core.epochId := by
  cases qc <;> rfl

@[simp]
theorem localValidatorId_observeQc :
    (core.observeQc qc).localValidatorId = core.localValidatorId := by
  cases qc <;> rfl

@[simp]
theorem validatorSet_observeQc : (core.observeQc qc).validatorSet = core.validatorSet := by
  cases qc <;> rfl

@[simp]
theorem voteCollector_observeQc : (core.observeQc qc).voteCollector = core.voteCollector := by
  cases qc <;> rfl

@[simp]
theorem localVoteChoice_observeQc :
    (core.observeQc qc).localVoteChoice = core.localVoteChoice := by
  cases qc <;> rfl

theorem lockedQc_observeQc : (core.observeQc qc).lockedQc = lockAfter core.lockedQc qc := by
  cases qc with
  | none => rfl
  | some qc =>
      by_cases precommit : qc.phase = .precommit
      · simp only [lockedQc, observeQc, precommit, lockAfter, true_and, if_true,
          ConsensusStore.savePacemakerState, ConsensusStore.pruneTimeoutLog,
          ConsensusStore.pruneVoteLog, ConsensusStore.updateLockedQc, ConsensusStore.saveQc]
        congr
      · simp only [lockedQc, observeQc, precommit, lockAfter, false_and, if_false,
          ConsensusStore.savePacemakerState, ConsensusStore.saveQc]

end ObserveQc

omit [DecidableEq H] [Crypto H] in
/-- The observed certificate or the former lock is the lock. -/
theorem mem_lockAfter {locked qc : Option (QC H)} {current : QC H}
    (mem : current ∈ lockAfter locked qc) : current ∈ locked ∨ current ∈ qc := by
  cases qc with
  | none => exact .inl mem
  | some qc =>
      simp only [lockAfter] at mem
      split at mem
      · exact .inr mem
      · exact .inl mem

omit [DecidableEq H] [Crypto H] in
/-- The round of the lock never decreases. -/
theorem exists_mem_lockAfter {locked : Option (QC H)} (qc : Option (QC H)) {current : QC H}
    (mem : current ∈ locked) : ∃ next ∈ lockAfter locked qc, current.round ≤ next.round := by
  cases qc with
  | none => exact ⟨current, mem, le_rfl⟩
  | some qc =>
      simp only [lockAfter]
      split
      next moves => exact ⟨qc, rfl, moves.2 current mem⟩
      · exact ⟨current, mem, le_rfl⟩

omit [DecidableEq H] [Crypto H] in
/-- After observing a precommit certificate the lock is at its round or later. -/
theorem exists_mem_lockAfter_self (locked : Option (QC H)) {qc : QC H}
    (precommit : qc.phase = .precommit) :
    ∃ next ∈ lockAfter locked (some qc), qc.round ≤ next.round := by
  simp only [lockAfter, precommit, true_and]
  split
  · exact ⟨qc, rfl, le_rfl⟩
  next stays =>
    push Not at stays
    obtain ⟨current, mem, later⟩ := stays
    exact ⟨current, mem, later.le⟩

/-! ## Making a vote -/

/-- The lock allows a vote: without a justifying certificate it is not consulted. -/
def LockPasses (locked justifyQc : Option (QC H)) (blockHash : H) : Prop :=
  ∀ current ∈ locked, ∀ justify ∈ justifyQc, blockHash ≠ current.blockHash →
    justify.blockHash ≠ current.blockHash → current.round ≤ justify.round

omit [Crypto H] in
theorem checkLock_eq_ok {core : ConsensusCore H} {proposal : Proposal H}
    {justifyQc : Option (QC H)} :
    core.checkLock proposal justifyQc = .ok () ↔
      LockPasses core.lockedQc justifyQc proposal.blockHash := by
  unfold checkLock LockPasses
  cases core.lockedQc with
  | none => simp [pure_eq_ok]
  | some locked =>
      cases justifyQc with
      | none => simp [pure_eq_ok]
      | some justify =>
          simp only [require_eq_ok, Option.mem_some_iff, forall_eq']
          constructor
          · intro passes block_ne justify_ne
            by_contra older
            exact passes ⟨block_ne, not_le.mp older, justify_ne⟩
          · rintro passes ⟨block_ne, older, justify_ne⟩
            exact absurd (passes block_ne justify_ne) (not_le.mpr older)

theorem checkJustifyHash_eq_ok {core : ConsensusCore H} {proposal : Proposal H}
    {justifyQc : Option (QC H)} :
    core.checkJustifyHash proposal justifyQc = .ok () ↔
      ∀ hash ∈ proposal.justifyQcHash, ∃ justify ∈ justifyQc, qcHash justify = hash ∧
        justify.validatorSetHash = core.validatorSet.validatorSetHash := by
  rw [checkJustifyHash]
  cases proposal.justifyQcHash with
  | none => simp [pure_eq_ok]
  | some hash => simp [bind_eq_ok, demand_eq_ok, require_eq_ok]

theorem checkProposal_eq_ok {core : ConsensusCore H} {proposal : Proposal H}
    {justifyQc : Option (QC H)} :
    core.checkProposal proposal justifyQc = .ok () ↔
      (proposal.chainId = core.chainId ∧ proposal.epochId = core.epochId) ∧
        proposal.validatorSetHash = core.validatorSet.validatorSetHash ∧
        core.validatorSet.contains proposal.proposerId = true ∧
        core.pacemaker.currentRound ≤ proposal.round + 1 ∧
        (∀ hash ∈ proposal.justifyQcHash, ∃ justify ∈ justifyQc, qcHash justify = hash ∧
          justify.validatorSetHash = core.validatorSet.validatorSetHash) ∧
        LockPasses core.lockedQc justifyQc proposal.blockHash := by
  simp only [checkProposal, bind_eq_ok, require_eq_ok, exists_unit, exists_const,
    checkJustifyHash_eq_ok, checkLock_eq_ok]

/-- What `validate_proposal` leaves behind besides the observed certificate is the proposal. -/
theorem validateProposal_snd (core : ConsensusCore H) (proposal : Proposal H)
    (justifyQc : Option (QC H)) :
    (core.validateProposal proposal justifyQc).2 =
      if (core.observeQc justifyQc).checkProposal proposal justifyQc = .ok () then
        { core.observeQc justifyQc with
          store := (core.observeQc justifyQc).store.saveProposal (proposalHash proposal) proposal }
      else core.observeQc justifyQc := by
  simp only [validateProposal]
  cases (core.observeQc justifyQc).checkProposal proposal justifyQc with
  | error message => rfl
  | ok done => rfl

/-- A returned vote passed the lock check and agrees with the votes cast before. -/
theorem makeVote_eq_ok {core next : ConsensusCore H} {proposal : Proposal H}
    {justifyQc : Option (QC H)} {phase : VotePhase} {vote : Vote H}
    (made : core.makeVote proposal justifyQc phase = (.ok vote, next)) :
    (core.observeQc justifyQc).checkProposal proposal justifyQc = .ok () ∧
      (∀ existing ∈ core.localVoteChoice.get? (proposal.height, proposal.round, phase),
        existing = proposal.blockHash) ∧
      vote = core.localVote proposal phase ∧
      next.localVoteChoice = core.localVoteChoice.set (proposal.height, proposal.round, phase)
        proposal.blockHash := by
  unfold makeVote validateProposal at made
  cases checked : (core.observeQc justifyQc).checkProposal proposal justifyQc with
  | error message => simp [checked] at made
  | ok done =>
      simp only [checked, localVoteChoice_observeQc] at made
      split at made
      next consistent =>
        simp only [Prod.mk.injEq, Except.ok.injEq] at made
        obtain ⟨rfl, rfl⟩ := made
        refine ⟨rfl, consistent, ?_, rfl⟩
        simp [localVote]
      next => simp at made

/-- A proposal that passes the checks and agrees with the votes cast before gets its vote. -/
theorem makeVote_of_checked {core : ConsensusCore H} {proposal : Proposal H}
    {justifyQc : Option (QC H)} {phase : VotePhase}
    (checked : (core.observeQc justifyQc).checkProposal proposal justifyQc = .ok ())
    (consistent : ∀ existing ∈
      core.localVoteChoice.get? (proposal.height, proposal.round, phase),
        existing = proposal.blockHash) :
    core.makeVote proposal justifyQc phase =
      (.ok (core.localVote proposal phase),
        { core.observeQc justifyQc with
          localVoteChoice := core.localVoteChoice.set (proposal.height, proposal.round, phase)
            proposal.blockHash
          store := ((core.observeQc justifyQc).store.saveProposal (proposalHash proposal)
            proposal).saveVoteRecord proposal.height proposal.round phase core.localValidatorId
              proposal.blockHash }) := by
  simp only [makeVote, validateProposal, checked, localVoteChoice_observeQc]
  rw [if_pos consistent]
  simp [localVote]

/-- An emitted vote comes from a successful `make_vote`. -/
theorem emitted_eq_some {core : ConsensusCore H} {call : Call H} {vote : Vote H}
    (emits : core.emitted call = some vote) :
    ∃ proposal justifyQc phase, call = .makeVote proposal justifyQc phase ∧
      vote = core.localVote proposal phase ∧
      LockPasses (lockAfter core.lockedQc justifyQc) justifyQc proposal.blockHash ∧
      (∀ existing ∈ core.localVoteChoice.get? (proposal.height, proposal.round, phase),
        existing = proposal.blockHash) ∧
      (core.perform call).localVoteChoice = core.localVoteChoice.set
        (proposal.height, proposal.round, phase) proposal.blockHash := by
  cases call with
  | makeVote proposal justifyQc phase =>
      simp only [emitted] at emits
      cases outcome : core.makeVote proposal justifyQc phase with
      | mk result next =>
          rw [outcome] at emits
          cases result with
          | error message => simp [Except.toOption] at emits
          | ok made =>
              obtain rfl : made = vote := by simpa [Except.toOption] using emits
              obtain ⟨checked, consistent, vote_eq, choice_eq⟩ := makeVote_eq_ok outcome
              refine ⟨proposal, justifyQc, phase, rfl, vote_eq, ?_, consistent, ?_⟩
              · rw [← lockedQc_observeQc]
                exact (checkProposal_eq_ok.mp checked).2.2.2.2.2
              · simp only [perform, outcome]
                exact choice_eq
  | _ => simp [emitted] at emits

/-! ## What a call changes -/

section Perform

variable (core : ConsensusCore H) (call : Call H)

/-- A call that returns no vote leaves the local choices alone. -/
theorem localVoteChoice_perform (silent : core.emitted call = none) :
    (core.perform call).localVoteChoice = core.localVoteChoice := by
  cases call with
  | observeQc qc => exact localVoteChoice_observeQc core qc
  | observeTc tc => cases tc <;> rfl
  | validateProposal proposal justifyQc =>
      simp only [perform, validateProposal_snd]
      split <;> exact localVoteChoice_observeQc core justifyQc
  | makeVote proposal justifyQc phase =>
      simp only [emitted, perform, makeVote, validateProposal] at silent ⊢
      cases checked : (core.observeQc justifyQc).checkProposal proposal justifyQc with
      | error message => exact localVoteChoice_observeQc core justifyQc
      | ok done =>
          simp only [checked] at silent ⊢
          split at silent
          · simp [Except.toOption] at silent
          next conflict =>
            rw [if_neg conflict]
            exact localVoteChoice_observeQc core justifyQc
  | acceptVote vote =>
      simp only [perform, acceptVote]
      split
      · rfl
      · exact localVoteChoice_observeQc _ _
  | makeTimeoutVote height round =>
      simp only [perform, makeTimeoutVote]
      split_ifs <;> rfl
  | acceptTimeoutVote timeoutVote =>
      simp only [perform, acceptTimeoutVote]
      split
      · rfl
      · next tc _ _ => cases tc <;> rfl

theorem lockedQc_perform :
    (core.perform call).lockedQc = lockAfter core.lockedQc (core.observed call) := by
  cases call with
  | observeQc qc => exact lockedQc_observeQc core qc
  | observeTc tc => cases tc <;> rfl
  | validateProposal proposal justifyQc =>
      simp only [perform, validateProposal_snd]
      split <;> exact lockedQc_observeQc core justifyQc
  | makeVote proposal justifyQc phase =>
      simp only [perform, makeVote, validateProposal, observed]
      rw [← lockedQc_observeQc]
      cases (core.observeQc justifyQc).checkProposal proposal justifyQc with
      | error message => rfl
      | ok done =>
          simp only
          split <;> rfl
  | acceptVote vote =>
      simp only [perform, observed, acceptVote]
      cases core.voteCollector.addVote vote core.validatorSet with
      | error message => rfl
      | ok counted => exact lockedQc_observeQc _ _
  | makeTimeoutVote height round =>
      simp only [perform, makeTimeoutVote]
      split_ifs <;> rfl
  | acceptTimeoutVote timeoutVote =>
      simp only [perform, acceptTimeoutVote]
      split
      · rfl
      · next tc _ _ => cases tc <;> rfl

/-- A counted signer was counted before or is the voter of the accepted vote. -/
theorem mem_signersOf_perform {height round : ℕ} {phase : VotePhase} {blockHash : H}
    {signer : String}
    (counted : signer ∈ (core.perform call).voteCollector.signersOf height round phase blockHash) :
    signer ∈ core.voteCollector.signersOf height round phase blockHash ∨
      ∃ vote, call = .acceptVote vote ∧ core.validatorSet.contains vote.voterId = true ∧
        vote.voterId = signer ∧ vote.height = height ∧ vote.round = round ∧ vote.phase = phase ∧
        vote.blockHash = blockHash := by
  cases call with
  | acceptVote vote =>
      simp only [perform, acceptVote] at counted
      cases added : core.voteCollector.addVote vote core.validatorSet with
      | error message => exact .inl (by simpa [added] using counted)
      | ok result =>
          obtain ⟨qc, collector⟩ := result
          obtain ⟨-, member, -, rfl, -⟩ := VoteCollector.addVote_eq_ok.mp added
          simp only [added, voteCollector_observeQc, VoteCollector.mem_signersOf_restoreVote,
            Prod.mk.injEq] at counted
          rcases counted with ⟨⟨height_eq, round_eq, phase_eq, block_eq⟩, signer_eq⟩ | counted
          · exact .inr ⟨vote, rfl, member, signer_eq.symm, height_eq, round_eq, phase_eq, block_eq⟩
          · exact .inl counted
  | observeQc qc => exact .inl (by simpa [perform] using counted)
  | observeTc tc => exact .inl (by cases tc <;> exact counted)
  | validateProposal proposal justifyQc =>
      simp only [perform, validateProposal_snd] at counted
      split at counted <;> exact .inl (by simpa using counted)
  | makeVote proposal justifyQc phase =>
      simp only [perform, makeVote, validateProposal] at counted
      cases checked : (core.observeQc justifyQc).checkProposal proposal justifyQc with
      | error message => exact .inl (by simpa [checked] using counted)
      | ok done =>
          simp only [checked] at counted
          split at counted <;> exact .inl (by simpa using counted)
  | makeTimeoutVote height round =>
      simp only [perform, makeTimeoutVote] at counted
      split_ifs at counted <;> exact .inl counted
  | acceptTimeoutVote timeoutVote =>
      simp only [perform, acceptTimeoutVote] at counted
      split at counted
      · exact .inl counted
      · next tc _ _ => cases tc <;> exact .inl counted

/-- A formed certificate is that of the accepted vote, whose target has a quorum of signers. -/
theorem observed_acceptVote {vote : Vote H} {qc : QC H}
    (formed : core.observed (.acceptVote vote) = some qc) :
    let others := core.voteCollector.signersOf vote.height vote.round vote.phase vote.blockHash
    qc = VoteCollector.certificate vote others ∧
      vote.validatorSetHash = core.validatorSet.validatorSetHash ∧
      core.validatorSet.contains vote.voterId = true ∧
      core.validatorSet.hasQuorum (insert vote.voterId others) = true ∧
      (core.perform (.acceptVote vote)).voteCollector = core.voteCollector.restoreVote vote.height
        vote.round vote.phase vote.voterId vote.blockHash := by
  simp only [observed, perform, acceptVote] at formed ⊢
  cases added : core.voteCollector.addVote vote core.validatorSet with
  | error message => simp [added, Except.toOption] at formed
  | ok result =>
      obtain ⟨certificate, collector⟩ := result
      obtain ⟨set, member, -, rfl, certificate_eq⟩ := VoteCollector.addVote_eq_ok.mp added
      simp only [added, Except.toOption, Option.join_some] at formed
      subst formed
      split at certificate_eq
      next quorum =>
        exact ⟨Option.some.inj certificate_eq, set, member, quorum, voteCollector_observeQc _ _⟩
      next => simp at certificate_eq

/-- The signers of a formed certificate were all counted. -/
theorem mem_signersOf_formed {vote : Vote H} {qc : QC H}
    (formed : core.observed (.acceptVote vote) = some qc) {signer : String}
    (mem : signer ∈ qc.signers.ids) :
    signer ∈ (core.perform (.acceptVote vote)).voteCollector.signersOf qc.height qc.round qc.phase
      qc.blockHash := by
  obtain ⟨rfl, -, -, -, collector⟩ := observed_acceptVote core formed
  rw [collector, VoteCollector.mem_signersOf_restoreVote]
  exact (VoteCollector.mem_certificate.mp mem).imp (fun same => ⟨rfl, same⟩) id

/-- No call changes who the core votes for. -/
theorem identity_perform :
    (core.perform call).localValidatorId = core.localValidatorId ∧
      (core.perform call).validatorSet = core.validatorSet ∧
      (core.perform call).chainId = core.chainId ∧ (core.perform call).epochId = core.epochId := by
  cases call with
  | observeQc qc => simp [perform]
  | observeTc tc => cases tc <;> exact ⟨rfl, rfl, rfl, rfl⟩
  | validateProposal proposal justifyQc =>
      simp only [perform, validateProposal_snd]
      split <;> simp
  | makeVote proposal justifyQc phase =>
      simp only [perform, makeVote, validateProposal]
      cases (core.observeQc justifyQc).checkProposal proposal justifyQc with
      | error message => simp
      | ok done =>
          simp only
          split <;> simp
  | acceptVote vote =>
      simp only [perform, acceptVote]
      split <;> simp
  | makeTimeoutVote height round =>
      simp only [perform, makeTimeoutVote]
      split_ifs <;> exact ⟨rfl, rfl, rfl, rfl⟩
  | acceptTimeoutVote timeoutVote =>
      simp only [perform, acceptTimeoutVote]
      split
      · exact ⟨rfl, rfl, rfl, rfl⟩
      · next tc _ _ => cases tc <;> exact ⟨rfl, rfl, rfl, rfl⟩

end Perform

/-! ## Runs -/

/-- The core after calls in the given order. -/
def run (core : ConsensusCore H) (calls : List (Call H)) : ConsensusCore H :=
  calls.foldl perform core

@[simp]
theorem run_nil (core : ConsensusCore H) : core.run [] = core := rfl

theorem run_concat (core : ConsensusCore H) (calls : List (Call H)) (call : Call H) :
    core.run (calls ++ [call]) = (core.run calls).perform call := by
  simp [run]

/-- A run does not change who the core votes for. -/
theorem identity_run (core : ConsensusCore H) (calls : List (Call H)) :
    (core.run calls).localValidatorId = core.localValidatorId ∧
      (core.run calls).validatorSet = core.validatorSet ∧
      (core.run calls).chainId = core.chainId ∧ (core.run calls).epochId = core.epochId := by
  induction calls using List.reverseRecOn with
  | nil => exact ⟨rfl, rfl, rfl, rfl⟩
  | append_singleton calls call induction =>
      obtain ⟨id_eq, set_eq, chain_eq, epoch_eq⟩ := identity_perform (core.run calls) call
      rw [run_concat, id_eq, set_eq, chain_eq, epoch_eq]
      exact induction

end ConsensusCore

end EZChain
