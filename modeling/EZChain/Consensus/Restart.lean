import EZChain.Consensus.Certificates

/-!
# Restarts and the persisted logs

A core that is built again from its store knows its votes and timeouts from the logs.  For every
call this module says what it does to the pacemaker, to the highest certificate and to the logs.
-/

namespace EZChain

open Checks

variable {H : Type}

namespace PacemakerState

/-- The pacemaker after a certificate was observed. -/
def afterQc (state : PacemakerState) : Option (QC H) → PacemakerState
  | none => state
  | some qc =>
      let noted := state.noteQc qc.round (if qc.phase = .precommit then some qc.round else none)
      if qc.phase = .commit then noted.noteDecide qc.round else noted

/-- The pacemaker after a timeout certificate was observed. -/
def afterTc (state : PacemakerState) : Option (TC H) → PacemakerState
  | none => state
  | some tc => state.noteTc tc.round

end PacemakerState

namespace ConsensusCore

/-- The highest certificate after a certificate was observed. -/
def highestAfter (highest : Option (QC H)) : Option (QC H) → Option (QC H)
  | none => highest
  | some qc =>
      match highest with
      | none => some qc
      | some current => if ConsensusStore.isHigherQc qc current then some qc else some current

/-- Records of the round are dropped when the certificate is observed. -/
def Prunes (qc : Option (QC H)) (round : ℕ) : Prop :=
  ∃ observed ∈ qc, observed.phase = .precommit ∧ round < observed.round

instance (qc : Option (QC H)) (round : ℕ) : Decidable (Prunes qc round) :=
  inferInstanceAs (Decidable (∃ observed ∈ qc, _))

variable [DecidableEq H] [Crypto H]

/-- The vote that a call writes to the vote log. -/
def loggedVote (core : ConsensusCore H) : Call H → Option (Vote H)
  | .makeVote proposal justifyQc phase => (core.makeVote proposal justifyQc phase).1.toOption
  | .acceptVote vote =>
      match (core.acceptVote vote).1 with
      | .error _ => none
      | .ok _ => some vote
  | _ => none

/-- The vote from outside that a call accepts. -/
def acceptedVote (core : ConsensusCore H) : Call H → Option (Vote H)
  | .acceptVote vote =>
      match (core.acceptVote vote).1 with
      | .error _ => none
      | .ok _ => some vote
  | _ => none

/-- The timeout vote that a call returns. -/
def emittedTimeout (core : ConsensusCore H) : Call H → Option (TimeoutVote H)
  | .makeTimeoutVote height round => (core.makeTimeoutVote height round).1.toOption
  | _ => none

/-- The timeout vote that a call writes to the timeout log. -/
def loggedTimeout (core : ConsensusCore H) : Call H → Option (TimeoutVote H)
  | .makeTimeoutVote height round => (core.makeTimeoutVote height round).1.toOption
  | .acceptTimeoutVote timeoutVote =>
      match (core.acceptTimeoutVote timeoutVote).1 with
      | .error _ => none
      | .ok _ => some timeoutVote
  | _ => none

/-- The process stops between two calls and the core is built again from its store. -/
def restart (core : ConsensusCore H) : ConsensusCore H :=
  match postInit core.chainId core.epochId core.localValidatorId core.validatorSet core.store with
  | .error _ => core
  | .ok next => next

/-! ## The restored core -/

section Restart

variable (core : ConsensusCore H)

theorem postInit_store :
    postInit core.chainId core.epochId core.localValidatorId core.validatorSet core.store =
      .ok core.restart := by
  simp only [restart, postInit, dif_pos core.local_mem]

@[simp]
theorem chainId_restart : core.restart.chainId = core.chainId := by
  simp only [restart, postInit, dif_pos core.local_mem]

@[simp]
theorem epochId_restart : core.restart.epochId = core.epochId := by
  simp only [restart, postInit, dif_pos core.local_mem]

@[simp]
theorem localValidatorId_restart : core.restart.localValidatorId = core.localValidatorId := by
  simp only [restart, postInit, dif_pos core.local_mem]

@[simp]
theorem validatorSet_restart : core.restart.validatorSet = core.validatorSet := by
  simp only [restart, postInit, dif_pos core.local_mem]

@[simp]
theorem store_restart : core.restart.store = core.store := by
  simp only [restart, postInit, dif_pos core.local_mem]

@[simp]
theorem pacemaker_restart : core.restart.pacemaker = core.store.pacemakerState := by
  simp only [restart, postInit, dif_pos core.local_mem]

@[simp]
theorem highestQc_restart : core.restart.highestQc = core.highestQc := by
  rw [highestQc, store_restart, highestQc]

@[simp]
theorem lockedQc_restart : core.restart.lockedQc = core.lockedQc := by
  rw [lockedQc, store_restart, lockedQc]

/-- The restored local choices are the logged votes of the local validator. -/
theorem localVoteChoice_restart (height round : ℕ) (phase : VotePhase) :
    core.restart.localVoteChoice.get? (height, round, phase) =
      core.store.voteLog.get? (height, round, phase, core.localValidatorId) := by
  refine Option.ext fun blockHash => ?_
  rw [OrderedDict.get?_eq_some_iff core.store.voteLog]
  simp only [restart, postInit, dif_pos core.local_mem]
  have nodup := core.store.voteLog.nodup
  generalize core.store.voteLog.entries = entries at nodup ⊢
  induction entries using List.reverseRecOn with
  | nil => simp
  | append_singleton entries entry induction =>
      obtain ⟨⟨height', round', phase', voterId⟩, stored⟩ := entry
      rw [List.map_append, List.map_singleton, List.nodup_append] at nodup
      obtain ⟨nodup, -, apart⟩ := nodup
      have earlier := (induction nodup).symm
      rw [List.foldl_append, List.foldl_cons, List.foldl_nil, List.mem_append, List.mem_singleton]
      by_cases own : voterId = core.localValidatorId
      · by_cases same : (height', round', phase') = (height, round, phase)
        · simp only [Prod.mk.injEq] at same
          obtain ⟨rfl, rfl, rfl⟩ := same
          have absent : ((height', round', phase', core.localValidatorId), blockHash) ∉ entries :=
            fun mem => apart _ (List.mem_map_of_mem mem) _ (List.mem_singleton_self _) (by rw [own])
          simp [own, absent, eq_comm]
        · simp only [Prod.mk.injEq] at same
          simp only [own, if_true, OrderedDict.get?_set, same, if_false, Prod.ext_iff]
          tauto
      · simpa [own, Ne.symm own] using earlier.symm

/-- The restored collector counts the voters of the log. -/
theorem mem_signersOf_restart {height round : ℕ} {phase : VotePhase} {blockHash : H}
    {signer : String} :
    signer ∈ core.restart.voteCollector.signersOf height round phase blockHash ↔
      core.store.voteLog.get? (height, round, phase, signer) = some blockHash := by
  rw [OrderedDict.get?_eq_some_iff]
  simp only [restart, postInit, dif_pos core.local_mem]
  induction core.store.voteLog.entries using List.reverseRecOn with
  | nil => simp [VoteCollector.signersOf_empty]
  | append_singleton entries entry induction =>
      obtain ⟨⟨height', round', phase', voterId⟩, stored⟩ := entry
      rw [List.foldl_append, List.foldl_cons, List.foldl_nil, List.mem_append, List.mem_singleton,
        VoteCollector.mem_signersOf_restoreVote, induction, or_comm]
      simp only [Prod.mk.injEq]
      constructor
      · rintro (before | ⟨⟨rfl, rfl, rfl, rfl⟩, rfl⟩)
        · exact .inl before
        · exact .inr ⟨⟨rfl, rfl, rfl, rfl⟩, rfl⟩
      · rintro (before | ⟨⟨rfl, rfl, rfl, rfl⟩, rfl⟩)
        · exact .inl before
        · exact .inr ⟨⟨rfl, rfl, rfl, rfl⟩, rfl⟩

/-- The restored timed out rounds are those of the local validator in the log. -/
theorem mem_localTimeoutRounds_restart {height round : ℕ} :
    (height, round) ∈ core.restart.localTimeoutRounds ↔
      (height, round, core.localValidatorId) ∈ core.store.timeoutLog.keys := by
  rw [OrderedDict.keys]
  simp only [restart, postInit, dif_pos core.local_mem]
  induction core.store.timeoutLog.entries using List.reverseRecOn with
  | nil => simp
  | append_singleton entries entry induction =>
      obtain ⟨⟨height', round', voterId⟩, highQc⟩ := entry
      rw [List.foldl_append, List.foldl_cons, List.foldl_nil, List.map_append, List.mem_append,
        ← induction]
      by_cases own : voterId = core.localValidatorId
      · simp only [own, if_true, Finset.mem_insert, Prod.mk.injEq, List.map_singleton,
          List.mem_singleton, and_true]
        tauto
      · simp [own, Ne.symm own]

end Restart

/-! ## What a call does to the pacemaker and to the certificates -/

section Calls

variable (core : ConsensusCore H)

@[simp]
theorem pacemaker_observeQc (qc : Option (QC H)) :
    (core.observeQc qc).pacemaker = core.pacemaker.afterQc qc := by
  cases qc <;> rfl

@[simp]
theorem pacemaker_observeTc (tc : Option (TC H)) :
    (core.observeTc tc).pacemaker = core.pacemaker.afterTc tc := by
  cases tc <;> rfl

theorem highestQc_observeQc (qc : Option (QC H)) :
    (core.observeQc qc).highestQc = highestAfter core.highestQc qc := by
  cases qc with
  | none => rfl
  | some qc =>
      cases highest : core.store.highestQc <;> by_cases precommit : qc.phase = .precommit <;>
        simp [highestQc, observeQc, precommit, highest, highestAfter,
          ConsensusStore.savePacemakerState, ConsensusStore.pruneTimeoutLog,
          ConsensusStore.pruneVoteLog, ConsensusStore.updateLockedQc, ConsensusStore.saveQc]

/-- A returned vote leaves the validated core behind, with the choice recorded twice. -/
theorem makeVote_snd (proposal : Proposal H) (justifyQc : Option (QC H)) (phase : VotePhase) :
    let validated := (core.validateProposal proposal justifyQc).2
    (core.makeVote proposal justifyQc phase).2 =
      match core.emitted (.makeVote proposal justifyQc phase) with
      | none => validated
      | some vote =>
          { validated with
            localVoteChoice :=
              validated.localVoteChoice.set (vote.height, vote.round, vote.phase) vote.blockHash
            store := validated.store.saveVoteRecord vote.height vote.round vote.phase vote.voterId
              vote.blockHash } := by
  simp only [emitted, makeVote]
  rcases core.validateProposal proposal justifyQc with ⟨_ | _, validated⟩
  · rfl
  · simp only
    split <;> rfl

theorem pacemaker_perform (call : Call H) :
    (core.perform call).pacemaker =
      (core.pacemaker.afterQc (core.observed call)).afterTc (core.observedTc call) := by
  cases call with
  | observeQc qc => exact pacemaker_observeQc core qc
  | observeTc tc => exact pacemaker_observeTc core tc
  | validateProposal proposal justifyQc =>
      simp only [perform, validateProposal_snd]
      split <;> exact pacemaker_observeQc core justifyQc
  | makeVote proposal justifyQc phase =>
      simp only [perform, makeVote_snd, validateProposal_snd]
      split <;> split <;> exact pacemaker_observeQc core justifyQc
  | acceptVote vote =>
      simp only [perform, observed, observedTc, acceptVote]
      split
      · rfl
      · exact pacemaker_observeQc _ _
  | makeTimeoutVote height round =>
      simp only [perform, makeTimeoutVote]
      split_ifs <;> rfl
  | acceptTimeoutVote timeoutVote =>
      simp only [perform, observed, observedTc, acceptTimeoutVote]
      split
      · rfl
      · exact pacemaker_observeTc _ _

theorem highestQc_perform (call : Call H) :
    (core.perform call).highestQc = highestAfter core.highestQc (core.observed call) := by
  cases call with
  | observeQc qc => exact highestQc_observeQc core qc
  | observeTc tc => cases tc <;> rfl
  | validateProposal proposal justifyQc =>
      simp only [perform, validateProposal_snd]
      split <;> exact highestQc_observeQc core justifyQc
  | makeVote proposal justifyQc phase =>
      simp only [perform, makeVote_snd, validateProposal_snd]
      split <;> split <;> exact highestQc_observeQc core justifyQc
  | acceptVote vote =>
      simp only [perform, observed, acceptVote]
      split
      · rfl
      · exact highestQc_observeQc _ _
  | makeTimeoutVote height round =>
      simp only [perform, makeTimeoutVote]
      split_ifs <;> rfl
  | acceptTimeoutVote timeoutVote =>
      simp only [perform, acceptTimeoutVote]
      split
      · rfl
      · next tc _ _ => cases tc <;> rfl

/-- The store holds the pacemaker of the core. -/
def Saved (core : ConsensusCore H) : Prop := core.store.pacemakerState = core.pacemaker

theorem Saved.observeQc {core : ConsensusCore H} (saved : core.Saved) (qc : Option (QC H)) :
    (core.observeQc qc).Saved := by
  cases qc with
  | none => exact saved
  | some qc => rfl

theorem Saved.observeTc {core : ConsensusCore H} (saved : core.Saved) (tc : Option (TC H)) :
    (core.observeTc tc).Saved := by
  cases tc with
  | none => exact saved
  | some tc => rfl

theorem Saved.perform {core : ConsensusCore H} (saved : core.Saved) (call : Call H) :
    (core.perform call).Saved := by
  cases call with
  | observeQc qc => exact saved.observeQc qc
  | observeTc tc => exact saved.observeTc tc
  | validateProposal proposal justifyQc =>
      simp only [ConsensusCore.perform, validateProposal_snd]
      split <;> exact saved.observeQc justifyQc
  | makeVote proposal justifyQc phase =>
      simp only [ConsensusCore.perform, makeVote_snd, validateProposal_snd]
      split <;> split <;> exact saved.observeQc justifyQc
  | acceptVote vote =>
      simp only [ConsensusCore.perform, acceptVote]
      split
      · exact saved
      · apply Saved.observeQc
        exact saved
  | makeTimeoutVote height round =>
      simp only [ConsensusCore.perform, makeTimeoutVote]
      split_ifs <;> exact saved
  | acceptTimeoutVote timeoutVote =>
      simp only [ConsensusCore.perform, acceptTimeoutVote]
      split
      · exact saved
      · apply Saved.observeTc
        exact saved

end Calls

/-! ## What a call does to the logs -/

section Logs

variable (core : ConsensusCore H)

omit [DecidableEq H] [Crypto H] in
theorem lt_currentRound_afterQc (state : PacemakerState) {qc : Option (QC H)} {observed : QC H}
    (mem : observed ∈ qc) : observed.round < (state.afterQc qc).currentRound := by
  obtain rfl := mem
  have moved : observed.round < max state.currentRound (observed.round + 1) := by omega
  by_cases commit : observed.phase = .commit <;>
    simpa only [PacemakerState.afterQc, PacemakerState.noteQc, PacemakerState.noteDecide, commit,
      if_true, if_false] using moved

theorem voteLog_observeQc (qc : Option (QC H)) (height round : ℕ) (phase : VotePhase)
    (voterId : String) :
    (core.observeQc qc).store.voteLog.get? (height, round, phase, voterId) =
      if Prunes qc round then none
      else core.store.voteLog.get? (height, round, phase, voterId) := by
  cases qc with
  | none => simp [Prunes, observeQc]
  | some qc =>
      by_cases precommit : qc.phase = .precommit
      · simp only [Prunes, observeQc, precommit, if_true, Option.mem_some_iff, exists_eq_left',
          true_and, ConsensusStore.savePacemakerState, ConsensusStore.pruneTimeoutLog,
          ConsensusStore.pruneVoteLog, ConsensusStore.updateLockedQc, ConsensusStore.saveQc,
          OrderedDict.get?_filterKeys, decide_eq_true_eq]
        split_ifs <;> first | rfl | omega
      · simp [Prunes, observeQc, precommit, ConsensusStore.savePacemakerState,
          ConsensusStore.saveQc]

theorem timeoutLog_observeQc (qc : Option (QC H)) (height round : ℕ) (voterId : String) :
    (core.observeQc qc).store.timeoutLog.get? (height, round, voterId) =
      if Prunes qc round then none else core.store.timeoutLog.get? (height, round, voterId) := by
  cases qc with
  | none => simp [Prunes, observeQc]
  | some qc =>
      by_cases precommit : qc.phase = .precommit
      · simp only [Prunes, observeQc, precommit, if_true, Option.mem_some_iff, exists_eq_left',
          true_and, ConsensusStore.savePacemakerState, ConsensusStore.pruneTimeoutLog,
          ConsensusStore.pruneVoteLog, ConsensusStore.updateLockedQc, ConsensusStore.saveQc,
          OrderedDict.get?_filterKeys, decide_eq_true_eq]
        split_ifs <;> first | rfl | omega
      · simp [Prunes, observeQc, precommit, ConsensusStore.savePacemakerState,
          ConsensusStore.saveQc]

/-- A granted vote is not of a round that its justifying certificate drops from the logs. -/
theorem not_prunes_of_checked {proposal : Proposal H} {justifyQc : Option (QC H)}
    (checked : (core.observeQc justifyQc).checkProposal proposal justifyQc = .ok ()) :
    ¬ Prunes justifyQc proposal.round := by
  rintro ⟨justify, mem, -, older⟩
  have current := (checkProposal_eq_ok.mp checked).2.2.2.1
  have moved := lt_currentRound_afterQc core.pacemaker mem
  rw [pacemaker_observeQc] at current
  omega

theorem voteLog_perform (call : Call H) (height round : ℕ) (phase : VotePhase)
    (voterId : String) :
    (core.perform call).store.voteLog.get? (height, round, phase, voterId) =
      if Prunes (core.observed call) round then none
      else match core.loggedVote call with
        | none => core.store.voteLog.get? (height, round, phase, voterId)
        | some vote =>
            if (vote.height, vote.round, vote.phase, vote.voterId) = (height, round, phase, voterId)
            then some vote.blockHash
            else core.store.voteLog.get? (height, round, phase, voterId) := by
  cases call with
  | observeQc qc => exact voteLog_observeQc core qc height round phase voterId
  | observeTc tc => cases tc <;> simp [perform, observeTc, observed, loggedVote, Prunes,
      ConsensusStore.savePacemakerState, ConsensusStore.saveTc]
  | validateProposal proposal justifyQc =>
      simp only [perform, validateProposal_snd]
      split <;> exact voteLog_observeQc core justifyQc height round phase voterId
  | makeVote proposal justifyQc phase' =>
      have validated : (core.validateProposal proposal justifyQc).2.store.voteLog =
          (core.observeQc justifyQc).store.voteLog := by
        rw [validateProposal_snd]
        split <;> rfl
      simp only [perform, makeVote_snd, observed, loggedVote, emitted]
      cases outcome : core.makeVote proposal justifyQc phase' with
      | mk result next =>
          cases result with
          | error message =>
              simp only [Except.toOption, validated]
              exact voteLog_observeQc core justifyQc height round phase voterId
          | ok vote =>
              obtain ⟨checked, -, rfl, -⟩ := makeVote_eq_ok outcome
              have kept := core.not_prunes_of_checked checked
              simp only [Except.toOption, ConsensusStore.saveVoteRecord, validated,
                OrderedDict.get?_set, voteLog_observeQc]
              split_ifs with same pruned
              · simp only [Prod.mk.injEq] at same
                obtain ⟨-, rfl, -⟩ := same
                exact absurd pruned kept
              all_goals rfl
  | acceptVote vote =>
      cases added : core.voteCollector.addVote vote core.validatorSet with
      | error message => simp [perform, observed, loggedVote, acceptVote, added, Prunes,
          Except.toOption]
      | ok result =>
          simp only [perform, observed, loggedVote, acceptVote, added, Except.toOption,
            Option.join_some, voteLog_observeQc, ConsensusStore.saveVoteRecord,
            OrderedDict.get?_set]
  | makeTimeoutVote height' round' =>
      simp only [perform, observed, loggedVote, makeTimeoutVote, Prunes]
      split_ifs <;> simp_all [ConsensusStore.saveTimeoutRecord]
  | acceptTimeoutVote timeoutVote =>
      simp only [perform, observed, loggedVote, acceptTimeoutVote, Prunes]
      split
      · simp
      · next tc _ _ => cases tc <;> simp [observeTc, ConsensusStore.saveTimeoutRecord,
          ConsensusStore.savePacemakerState, ConsensusStore.saveTc]

theorem timeoutLog_perform (call : Call H) (height round : ℕ) (voterId : String) :
    (core.perform call).store.timeoutLog.get? (height, round, voterId) =
      if Prunes (core.observed call) round then none
      else match core.loggedTimeout call with
        | none => core.store.timeoutLog.get? (height, round, voterId)
        | some vote =>
            if (vote.height, vote.round, vote.voterId) = (height, round, voterId)
            then some (vote.highQcRound, vote.highQcHash)
            else core.store.timeoutLog.get? (height, round, voterId) := by
  cases call with
  | observeQc qc => exact timeoutLog_observeQc core qc height round voterId
  | observeTc tc => cases tc <;> simp [perform, observeTc, observed, loggedTimeout, Prunes,
      ConsensusStore.savePacemakerState, ConsensusStore.saveTc]
  | validateProposal proposal justifyQc =>
      simp only [perform, validateProposal_snd]
      split <;> exact timeoutLog_observeQc core justifyQc height round voterId
  | makeVote proposal justifyQc phase =>
      simp only [perform, makeVote_snd, validateProposal_snd]
      split <;> split <;> exact timeoutLog_observeQc core justifyQc height round voterId
  | acceptVote vote =>
      cases added : core.voteCollector.addVote vote core.validatorSet with
      | error message => simp [perform, observed, loggedTimeout, acceptVote, added, Prunes,
          Except.toOption]
      | ok result =>
          simp only [perform, observed, loggedTimeout, acceptVote, added]
          exact timeoutLog_observeQc _ _ height round voterId
  | makeTimeoutVote height' round' =>
      simp only [perform, observed, loggedTimeout, makeTimeoutVote, Prunes]
      split_ifs <;> simp_all [ConsensusStore.saveTimeoutRecord, OrderedDict.get?_set,
        Except.toOption]
  | acceptTimeoutVote timeoutVote =>
      simp only [perform, observed, loggedTimeout, acceptTimeoutVote, Prunes]
      split
      · simp
      · next tc _ _ => cases tc <;> simp [observeTc, ConsensusStore.saveTimeoutRecord,
          ConsensusStore.savePacemakerState, ConsensusStore.saveTc, OrderedDict.get?_set]

/-- Only a returned timeout vote marks its round as timed out. -/
theorem localTimeoutRounds_perform (call : Call H) :
    (core.perform call).localTimeoutRounds =
      match core.emittedTimeout call with
      | none => core.localTimeoutRounds
      | some vote => insert (vote.height, vote.round) core.localTimeoutRounds := by
  have observes : ∀ (core : ConsensusCore H) (qc : Option (QC H)),
      (core.observeQc qc).localTimeoutRounds = core.localTimeoutRounds := by
    intro core qc
    cases qc <;> rfl
  cases call with
  | observeQc qc => exact observes core qc
  | observeTc tc => cases tc <;> rfl
  | validateProposal proposal justifyQc =>
      simp only [perform, validateProposal_snd]
      split <;> exact observes core justifyQc
  | makeVote proposal justifyQc phase =>
      simp only [perform, makeVote_snd, validateProposal_snd]
      split <;> split <;> exact observes core justifyQc
  | acceptVote vote =>
      simp only [perform, emittedTimeout, acceptVote]
      split
      · rfl
      · exact observes _ _
  | makeTimeoutVote height round =>
      simp only [perform, emittedTimeout, makeTimeoutVote]
      split_ifs <;> rfl
  | acceptTimeoutVote timeoutVote =>
      simp only [perform, emittedTimeout, acceptTimeoutVote]
      split
      · rfl
      · next tc _ _ => cases tc <;> rfl

end Logs

end ConsensusCore

end EZChain
