import EZChain.Consensus.LockRule

/-!
# Certificates inside a core

The collectors only count members of the validator set, so the certificates they form are sound
up to the chain and epoch of the completing vote.  Certificates that come from outside are adopted
as they are.
-/

namespace EZChain

open Checks

variable {H : Type} [DecidableEq H] [Crypto H]

namespace ConsensusCore

/-- The certificate that a call observes for a timed out round, given to it or formed by it. -/
def observedTc (core : ConsensusCore H) : Call H → Option (TC H)
  | .observeTc tc => tc
  | .acceptTimeoutVote timeoutVote => (core.acceptTimeoutVote timeoutVote).1.toOption.join
  | _ => none

/-- A certificate of the core's chain, epoch and validator set, signed by a quorum of members. -/
structure CertificateSound (core : ConsensusCore H) (chainId epochId : ℕ) (validatorSetHash : H)
    (signers : Signers) : Prop where
  chain : chainId = core.chainId
  epoch : epochId = core.epochId
  set : validatorSetHash = core.validatorSet.validatorSetHash
  members : ∀ signer ∈ signers.ids, core.validatorSet.contains signer = true
  quorum : core.validatorSet.hasQuorum signers.ids.toFinset = true

def SoundQc (core : ConsensusCore H) (qc : QC H) : Prop :=
  core.CertificateSound qc.chainId qc.epochId qc.validatorSetHash qc.signers

def SoundTc (core : ConsensusCore H) (tc : TC H) : Prop :=
  core.CertificateSound tc.chainId tc.epochId tc.validatorSetHash tc.signers

theorem certificateSound_run (core : ConsensusCore H) (calls : List (Call H))
    {chainId epochId : ℕ} {validatorSetHash : H} {signers : Signers} :
    (core.run calls).CertificateSound chainId epochId validatorSetHash signers ↔
      core.CertificateSound chainId epochId validatorSetHash signers := by
  obtain ⟨-, set_eq, chain_eq, epoch_eq⟩ := core.identity_run calls
  constructor
  · rintro ⟨chain, epoch, set, members, quorum⟩
    exact ⟨chain.trans chain_eq, epoch.trans epoch_eq, set_eq ▸ set, set_eq ▸ members,
      set_eq ▸ quorum⟩
  · rintro ⟨chain, epoch, set, members, quorum⟩
    exact ⟨chain.trans chain_eq.symm, epoch.trans epoch_eq.symm, set_eq ▸ set, set_eq ▸ members,
      set_eq ▸ quorum⟩

/-! ## The collectors count members only -/

/-- Every counted signer is a member. -/
structure CountsMembers (core : ConsensusCore H) : Prop where
  votes : ∀ height round phase blockHash,
    ∀ signer ∈ core.voteCollector.signersOf height round phase blockHash,
      core.validatorSet.contains signer = true
  timeouts : ∀ height round, ∀ signer ∈ core.timeoutVoteCollector.signersOf height round,
    core.validatorSet.contains signer = true

omit [Crypto H] in
theorem countsMembers_fresh (chainId epochId : ℕ) (localValidatorId : String)
    (validatorSet : ValidatorSet) (member : validatorSet.contains localValidatorId = true) :
    (fresh (H := H) chainId epochId localValidatorId validatorSet member).CountsMembers where
  votes height round phase blockHash signer mem := by
    simp [fresh, VoteCollector.signersOf_empty] at mem
  timeouts height round signer mem := by
    simp [fresh, TimeoutVoteCollector.signersOf, TimeoutVoteCollector.empty] at mem

/-- A signer counted for a round was counted before or is the voter of the accepted vote. -/
theorem mem_timeoutSigners_perform (core : ConsensusCore H) (call : Call H) {height round : ℕ}
    {signer : String}
    (counted : signer ∈ (core.perform call).timeoutVoteCollector.signersOf height round) :
    signer ∈ core.timeoutVoteCollector.signersOf height round ∨
      core.validatorSet.contains signer = true := by
  cases call with
  | acceptTimeoutVote timeoutVote =>
      simp only [perform, acceptTimeoutVote] at counted
      cases added : core.timeoutVoteCollector.addTimeoutVote timeoutVote core.validatorSet with
      | error message => exact .inl (by simpa [added] using counted)
      | ok result =>
          obtain ⟨tc, collector⟩ := result
          obtain ⟨-, member, rfl, -⟩ := TimeoutVoteCollector.addTimeoutVote_eq_ok added
          have collected : signer ∈ (core.timeoutVoteCollector.restoreTimeout timeoutVote.height
              timeoutVote.round timeoutVote.voterId
              (timeoutVote.highQcRound, timeoutVote.highQcHash)).signersOf height round := by
            cases tc <;> simpa [added, observeTc] using counted
          rw [TimeoutVoteCollector.mem_signersOf_restoreTimeout] at collected
          rcases collected with ⟨-, rfl⟩ | before
          · exact .inr member
          · exact .inl before
  | observeQc qc => exact .inl (by cases qc <;> exact counted)
  | observeTc tc => exact .inl (by cases tc <;> exact counted)
  | validateProposal proposal justifyQc =>
      simp only [perform, validateProposal_snd] at counted
      split at counted <;> exact .inl (by cases justifyQc <;> exact counted)
  | makeVote proposal justifyQc phase =>
      simp only [perform, makeVote, validateProposal] at counted
      cases checked : (core.observeQc justifyQc).checkProposal proposal justifyQc with
      | error message =>
          simp only [checked] at counted
          exact .inl (by cases justifyQc <;> exact counted)
      | ok done =>
          simp only [checked] at counted
          split at counted <;> exact .inl (by cases justifyQc <;> exact counted)
  | acceptVote vote =>
      simp only [perform, acceptVote] at counted
      split at counted
      · exact .inl counted
      · next qc _ _ => exact .inl (by cases qc <;> exact counted)
  | makeTimeoutVote height round =>
      simp only [perform, makeTimeoutVote] at counted
      split_ifs at counted <;> exact .inl counted

theorem CountsMembers.perform {core : ConsensusCore H} (counts : core.CountsMembers)
    (call : Call H) : (core.perform call).CountsMembers := by
  have set_eq := (identity_perform core call).2.1
  constructor
  · intro height round phase blockHash signer mem
    rw [set_eq]
    rcases mem_signersOf_perform core call mem with before | ⟨vote, -, member, rfl, -⟩
    · exact counts.votes height round phase blockHash signer before
    · exact member
  · intro height round signer mem
    rw [set_eq]
    exact (mem_timeoutSigners_perform core call mem).elim (counts.timeouts height round signer) id

theorem CountsMembers.run {core : ConsensusCore H} (counts : core.CountsMembers)
    (calls : List (Call H)) : (core.run calls).CountsMembers := by
  induction calls using List.reverseRecOn with
  | nil => exact counts
  | append_singleton calls call induction =>
      rw [run_concat]
      exact induction.perform call

/-! ## Soundness of what a core adopts -/

/-- What a call brings from outside is sound: a given certificate entirely, and a vote that
completes a quorum in its chain and epoch. -/
def InputsSound (core : ConsensusCore H) : Call H → Prop
  | .observeQc qc => ∀ given ∈ qc, core.SoundQc given
  | .observeTc tc => ∀ given ∈ tc, core.SoundTc given
  | .validateProposal _ justifyQc => ∀ given ∈ justifyQc, core.SoundQc given
  | .makeVote _ justifyQc _ => ∀ given ∈ justifyQc, core.SoundQc given
  | .acceptVote vote =>
      core.validatorSet.hasQuorum (insert vote.voterId (core.voteCollector.signersOf vote.height
        vote.round vote.phase vote.blockHash)) = true →
          vote.chainId = core.chainId ∧ vote.epochId = core.epochId
  | .acceptTimeoutVote timeoutVote =>
      core.validatorSet.hasQuorum (insert timeoutVote.voterId
        (core.timeoutVoteCollector.signersOf timeoutVote.height timeoutVote.round)) = true →
          timeoutVote.chainId = core.chainId ∧ timeoutVote.epochId = core.epochId
  | .makeTimeoutVote _ _ => True

theorem soundQc_observed {core : ConsensusCore H} (counts : core.CountsMembers) {call : Call H}
    (sound : core.InputsSound call) {qc : QC H} (observes : qc ∈ core.observed call) :
    core.SoundQc qc := by
  cases call with
  | observeQc _ => exact sound qc observes
  | validateProposal _ _ => exact sound qc observes
  | makeVote _ _ _ => exact sound qc observes
  | acceptVote vote =>
      obtain ⟨rfl, set, member, quorum, -⟩ := observed_acceptVote core observes
      obtain ⟨chain, epoch⟩ := sound quorum
      refine ⟨chain, epoch, set, fun signer mem => ?_, ?_⟩
      · rcases VoteCollector.mem_certificate.mp mem with rfl | before
        · exact member
        · exact counts.votes _ _ _ _ signer before
      · rwa [VoteCollector.toFinset_certificate]
  | observeTc _ => cases observes
  | makeTimeoutVote _ _ => cases observes
  | acceptTimeoutVote _ => cases observes

theorem soundTc_observed {core : ConsensusCore H} (counts : core.CountsMembers) {call : Call H}
    (sound : core.InputsSound call) {tc : TC H} (observes : tc ∈ core.observedTc call) :
    core.SoundTc tc := by
  cases call with
  | observeTc _ => exact sound tc observes
  | acceptTimeoutVote timeoutVote =>
      simp only [observedTc, acceptTimeoutVote] at observes
      cases added : core.timeoutVoteCollector.addTimeoutVote timeoutVote core.validatorSet with
      | error message => simp [added, Except.toOption] at observes
      | ok result =>
          obtain ⟨certificate, collector⟩ := result
          obtain ⟨set, member, -, formed⟩ := TimeoutVoteCollector.addTimeoutVote_eq_ok added
          simp only [added, Except.toOption, Option.join_some] at observes
          obtain ⟨chain_eq, epoch_eq, set_eq, signers, quorum⟩ := formed tc observes
          obtain ⟨chain, epoch⟩ := sound quorum
          refine ⟨chain_eq.trans chain, epoch_eq.trans epoch, set_eq.trans set,
            fun signer mem => ?_, signers ▸ quorum⟩
          rw [← List.mem_toFinset, signers, Finset.mem_insert] at mem
          rcases mem with rfl | before
          · exact member
          · exact counts.timeouts _ _ signer before
  | observeQc _ => cases observes
  | validateProposal _ _ => cases observes
  | makeVote _ _ _ => cases observes
  | acceptVote _ => cases observes
  | makeTimeoutVote _ _ => cases observes

/-- The highest certificate is the former one or the one that was observed. -/
theorem mem_highestQc_observeQc {core : ConsensusCore H} {qc : Option (QC H)} {highest : QC H}
    (mem : highest ∈ (core.observeQc qc).highestQc) : highest ∈ core.highestQc ∨ highest ∈ qc := by
  cases qc with
  | none => exact .inl mem
  | some qc =>
      have saved : highest ∈ (core.store.saveQc (qcHash qc) qc).highestQc := by
        by_cases precommit : qc.phase = .precommit <;>
          simpa [highestQc, observeQc, precommit, ConsensusStore.savePacemakerState,
            ConsensusStore.pruneTimeoutLog, ConsensusStore.pruneVoteLog,
            ConsensusStore.updateLockedQc] using mem
      simp only [ConsensusStore.saveQc] at saved
      split at saved
      · exact .inr saved
      · split at saved
        · exact .inr saved
        next current_eq _ => exact .inl (by simpa [highestQc, current_eq] using saved)

theorem mem_highestQc_perform {core : ConsensusCore H} {call : Call H} {highest : QC H}
    (mem : highest ∈ (core.perform call).highestQc) :
    highest ∈ core.highestQc ∨ highest ∈ core.observed call := by
  cases call with
  | observeQc qc => exact mem_highestQc_observeQc mem
  | observeTc tc => exact .inl (by cases tc <;> exact mem)
  | validateProposal proposal justifyQc =>
      simp only [ConsensusCore.perform, validateProposal_snd] at mem
      split at mem <;> exact mem_highestQc_observeQc mem
  | makeVote proposal justifyQc phase =>
      simp only [ConsensusCore.perform, makeVote, validateProposal] at mem
      cases checked : (core.observeQc justifyQc).checkProposal proposal justifyQc with
      | error message =>
          simp only [checked] at mem
          exact mem_highestQc_observeQc mem
      | ok done =>
          simp only [checked] at mem
          split at mem <;> exact mem_highestQc_observeQc mem
  | acceptVote vote =>
      simp only [ConsensusCore.perform, observed, acceptVote] at mem ⊢
      cases added : core.voteCollector.addVote vote core.validatorSet with
      | error message => exact .inl (by simpa [added] using mem)
      | ok counted =>
          simp only [added] at mem
          have adopted := mem_highestQc_observeQc mem
          exact adopted
  | makeTimeoutVote height round =>
      simp only [ConsensusCore.perform, makeTimeoutVote] at mem
      split_ifs at mem <;> exact .inl mem
  | acceptTimeoutVote timeoutVote =>
      simp only [ConsensusCore.perform, acceptTimeoutVote] at mem
      split at mem
      · exact .inl mem
      · next tc _ _ => exact .inl (by cases tc <;> exact mem)

/-- The highest certificate, the lock and every certificate that moved the pacemaker in the course
of the calls are sound. -/
structure CertificatesSound (core : ConsensusCore H) (calls : List (Call H)) : Prop where
  highest : ∀ qc ∈ (core.run calls).highestQc, core.SoundQc qc
  locked : ∀ qc ∈ (core.run calls).lockedQc, core.SoundQc qc
  moved : ∀ before call after, calls = before ++ call :: after →
    ((core.run before).perform call).pacemaker ≠ (core.run before).pacemaker →
      (∀ qc ∈ (core.run before).observed call, core.SoundQc qc) ∧
        ∀ tc ∈ (core.run before).observedTc call, core.SoundTc tc

/-- When every call of a run has sound inputs, the core only adopts sound certificates. -/
theorem certificatesSound_of_inputs {chainId epochId : ℕ} {localValidatorId : String}
    {validatorSet : ValidatorSet} (member : validatorSet.contains localValidatorId = true)
    (calls : List (Call H))
    (sound : ∀ before call after, calls = before ++ call :: after →
      ((fresh chainId epochId localValidatorId validatorSet member).run before).InputsSound
        call) :
    (fresh chainId epochId localValidatorId validatorSet member).CertificatesSound calls := by
  generalize start : fresh (H := H) chainId epochId localValidatorId validatorSet member = core
    at sound
  have counts : core.CountsMembers := start ▸ countsMembers_fresh _ _ _ _ member
  have adopted : ∀ before call after, calls = before ++ call :: after →
      (∀ qc ∈ (core.run before).observed call, core.SoundQc qc) ∧
        ∀ tc ∈ (core.run before).observedTc call, core.SoundTc tc := by
    intro before call after split
    have inputs := sound before call after split
    have members := counts.run before
    exact ⟨fun qc mem => (certificateSound_run core before).mp
        (soundQc_observed members inputs mem),
      fun tc mem => (certificateSound_run core before).mp (soundTc_observed members inputs mem)⟩
  have stored : (∀ qc ∈ (core.run calls).highestQc, core.SoundQc qc) ∧
      ∀ qc ∈ (core.run calls).lockedQc, core.SoundQc qc := by
    clear sound
    induction calls using List.reverseRecOn with
    | nil => subst start; exact ⟨nofun, nofun⟩
    | append_singleton calls call induction =>
        obtain ⟨highest, locked⟩ := induction fun before next after split =>
          adopted before next (after ++ [call]) (by simp [split])
        have now := (adopted calls call [] rfl).1
        rw [run_concat, lockedQc_perform]
        exact ⟨fun qc mem => (mem_highestQc_perform mem).elim (highest qc) (now qc),
          fun qc mem => (mem_lockAfter mem).elim (locked qc) (now qc)⟩
  exact ⟨stored.1, stored.2, fun before call after split _ => adopted before call after split⟩

/-- A new core of one of four members adopts certificates of three of them in two rounds. -/
theorem certificatesSound_four :
    (fresh 1 0 "d" CoreSystem.fourSet rfl).CertificatesSound
      [.observeQc (some (CoreSystem.fourQc Nat.one_pos .prepare)),
        .observeQc (some (CoreSystem.fourQc Nat.two_pos .precommit))] := by
  refine certificatesSound_of_inputs rfl _ fun before call after split => ?_
  have sound : ∀ {round : ℕ} (round_pos : 0 < round) (phase : VotePhase),
      ((fresh 1 0 "d" CoreSystem.fourSet rfl).run before).SoundQc
        (CoreSystem.fourQc round_pos phase) := by
    intro round round_pos phase
    refine (certificateSound_run _ before).mpr ⟨rfl, rfl, rfl, ?_, CoreSystem.hasQuorum_fourQc⟩
    intro signer mem
    simp only [CoreSystem.fourQc, List.mem_cons, List.not_mem_nil, or_false] at mem
    rcases mem with rfl | rfl | rfl <;> rfl
  have call_mem : call ∈ before ++ call :: after := by simp
  rw [← split, List.mem_pair] at call_mem
  rcases call_mem with rfl | rfl
  · intro given given_mem
    exact Option.mem_some_iff.mp given_mem ▸ sound Nat.one_pos .prepare
  · intro given given_mem
    exact Option.mem_some_iff.mp given_mem ▸ sound Nat.two_pos .precommit

/-- A new core adopts a certificate of another chain. -/
theorem not_certificatesSound_foreign :
    ¬ (fresh 1 0 "a" CoreSystem.loneSet CoreSystem.loneSet_contains).CertificatesSound
      [.observeQc
        (some { CoreSystem.loneQc one_pos (.filled 1) .precommit with chainId := 2 })] := by
  intro sound
  have chain := (sound.locked _ rfl).chain
  simp [fresh] at chain

end ConsensusCore

end EZChain
