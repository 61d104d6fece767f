import EZChain.Consensus.Database
import EZChain.Consensus.Sessions
import EZChain.Values
import Mathlib.Data.List.TakeWhile

/-!
# Integers that do not fit the database

A column takes integers of 64 bits, and `sqlite3` raises `OverflowError` for larger ones.  The call
whose transaction raises ends there: the transactions before it went through, and the core keeps
what it had changed in memory by then.
-/

namespace EZChain

variable {H : Type}

/-- The integers of a transaction fit their columns. -/
def Commit.Fits : Commit H → Prop
  | .voteRecord height round _ _ _ => height ≤ maxColumnInteger ∧ round ≤ maxColumnInteger
  | .timeoutRecord height round _ highQc =>
      height ≤ maxColumnInteger ∧ round ≤ maxColumnInteger ∧
        ∀ qcRound ∈ highQc.1, qcRound ≤ maxColumnInteger
  | .pruneVoteLog keepRound => keepRound ≤ maxColumnInteger
  | .pruneTimeoutLog keepRound => keepRound ≤ maxColumnInteger
  | _ => True

instance decidableFits : (commit : Commit H) → Decidable commit.Fits
  | .voteRecord _ _ _ _ _ => inferInstanceAs (Decidable (_ ∧ _))
  | .timeoutRecord _ _ _ _ => inferInstanceAs (Decidable (_ ∧ _ ∧ _))
  | .pruneVoteLog _ => inferInstanceAs (Decidable (_ ≤ _))
  | .pruneTimeoutLog _ => inferInstanceAs (Decidable (_ ≤ _))
  | .proposal _ _ | .qc _ _ | .tc _ _ | .runtimeState _ => inferInstanceAs (Decidable True)

/-- The transaction of `save_vote_record`. -/
def Vote.record (vote : Vote H) : Commit H :=
  .voteRecord vote.height vote.round vote.phase vote.voterId vote.blockHash

/-- The transaction of `save_timeout_record`. -/
def TimeoutVote.record (vote : TimeoutVote H) : Commit H :=
  .timeoutRecord vote.height vote.round vote.voterId (vote.highQcRound, vote.highQcHash)

namespace ConsensusCore

/-- A precommit certificate for which the logs cannot be pruned. -/
def Unprunable (qc : Option (QC H)) : Prop :=
  ∃ observed ∈ qc, observed.phase = .precommit ∧ maxColumnInteger < observed.round

instance decidableUnprunable (qc : Option (QC H)) : Decidable (Unprunable qc) :=
  inferInstanceAs (Decidable (∃ observed ∈ qc, _))

variable [DecidableEq H] [Crypto H]

/-- The transactions of a call that go through. -/
def transactions (core : ConsensusCore H) (call : Call H) : List (Commit H) :=
  (core.commits call).takeWhile fun commit => decide commit.Fits

/-- A transaction of the call raises `OverflowError`. -/
def Overflows (core : ConsensusCore H) (call : Call H) : Prop :=
  ∃ commit ∈ core.commits call, ¬ commit.Fits

instance decidableOverflows (core : ConsensusCore H) (call : Call H) :
    Decidable (core.Overflows call) :=
  inferInstanceAs (Decidable (∃ commit ∈ core.commits call, _))

/-- A precommit certificate was saved and locked; the pacemaker was moved but not saved. -/
def lockInMemory (core : ConsensusCore H) (qc : QC H) : ConsensusCore H :=
  { core with
    store := (core.store.saveQc (qcHash qc) qc).updateLockedQc qc
    pacemaker := core.pacemaker.noteQc qc.round (some qc.round) }

/-- The core after a call whose transaction has raised. -/
def interrupt (core : ConsensusCore H) : Call H → ConsensusCore H
  | .observeQc qc => qc.elim core core.lockInMemory
  | .observeTc _ => core
  | .validateProposal _ justifyQc => justifyQc.elim core core.lockInMemory
  | .makeVote proposal justifyQc phase =>
      if Unprunable justifyQc then justifyQc.elim core core.lockInMemory
      else
        -- The choice is made before it is written to the vote log.
        let validated := (core.validateProposal proposal justifyQc).2
        { validated with
          localVoteChoice := validated.localVoteChoice.set
            (proposal.height, proposal.round, phase) proposal.blockHash }
  | .acceptVote vote =>
      match core.voteCollector.addVote vote core.validatorSet with
      | .error _ => core
      | .ok (_, collector) => { core with voteCollector := collector }
  | .makeTimeoutVote height round =>
      { core with localTimeoutRounds := insert (height, round) core.localTimeoutRounds }
  | .acceptTimeoutVote timeoutVote =>
      match core.timeoutVoteCollector.addTimeoutVote timeoutVote core.validatorSet with
      | .error _ => core
      | .ok (_, collector) => { core with timeoutVoteCollector := collector }

/-- The core after a call on a `SQLiteConsensusStore`. -/
def performStored (core : ConsensusCore H) (call : Call H) : ConsensusCore H :=
  if core.Overflows call then core.interrupt call else core.perform call

/-- The vote that a call on a `SQLiteConsensusStore` returns. -/
def emittedStored (core : ConsensusCore H) (call : Call H) : Option (Vote H) :=
  if core.Overflows call then none else core.emitted call

/-- The vote that a call on a `SQLiteConsensusStore` writes to the vote log. -/
def loggedStored (core : ConsensusCore H) (call : Call H) : Option (Vote H) :=
  if core.Overflows call then none else core.loggedVote call

/-- The quorum certificate that a call saves. -/
def savedQc (core : ConsensusCore H) : Call H → Option (QC H)
  | .acceptVote vote => if vote.record.Fits then core.observed (.acceptVote vote) else none
  | call => core.observed call

/-- The timeout certificate that a call saves. -/
def savedTc (core : ConsensusCore H) : Call H → Option (TC H)
  | .acceptTimeoutVote timeoutVote =>
      if timeoutVote.record.Fits then core.observedTc (.acceptTimeoutVote timeoutVote) else none
  | call => core.observedTc call

/-- The transactions of a call before those that save its certificate. -/
def commitsBefore : Call H → ℕ
  | .acceptVote _ | .acceptTimeoutVote _ => 1
  | _ => 0

/-- What a call leaves behind that raised: the core and the transactions that went through. -/
inductive Interruption (core : ConsensusCore H) :
    Call H → ConsensusCore H → List (Commit H) → Prop
  /-- The vote log could not be pruned. -/
  | unprunable {call : Call H} {qc : QC H} (rest : List (Commit H))
      (saves : core.savedQc call = some qc) (silent : core.savedTc call = none)
      (precommit : qc.phase = .precommit) (large : maxColumnInteger < qc.round)
      (first : commitsBefore call = 0)
      (commits_eq : core.commits call = core.observeQcCommits (some qc) ++ rest) :
      core.Interruption call (core.lockInMemory qc) ((core.observeQcCommits (some qc)).take 3)
  /-- The vote of the core could not be recorded. -/
  | unrecorded {proposal : Proposal H} {justifyQc : Option (QC H)} {phase : VotePhase}
      {vote : Vote H} (emits : core.emitted (.makeVote proposal justifyQc phase) = some vote)
      (prunable : ¬ Unprunable justifyQc) (large : ¬ vote.record.Fits) :
      core.Interruption (.makeVote proposal justifyQc phase)
        { core.perform (.validateProposal proposal justifyQc) with
          localVoteChoice := core.localVoteChoice.set (vote.height, vote.round, vote.phase)
            vote.blockHash }
        (core.commits (.validateProposal proposal justifyQc))
  /-- The first transaction raised. -/
  | unsaved {call : Call H} (votes : VoteCollector H) (timeouts : TimeoutVoteCollector H)
      (rounds : Finset (ℕ × ℕ)) (qc_eq : core.savedQc call = none)
      (tc_eq : core.savedTc call = none) (silent : core.emitted call = none) :
      core.Interruption call
        { core with
          voteCollector := votes, timeoutVoteCollector := timeouts, localTimeoutRounds := rounds }
        []

/-! ## Calls that raise -/

omit [DecidableEq H] [Crypto H] in
theorem takeWhile_fits {commit : Commit H} (fits : commit.Fits) (rest : List (Commit H)) :
    (commit :: rest).takeWhile (fun commit => decide commit.Fits) =
      commit :: rest.takeWhile fun commit => decide commit.Fits :=
  List.takeWhile_cons_of_pos (decide_eq_true fits)

omit [DecidableEq H] [Crypto H] in
theorem takeWhile_not_fits {commit : Commit H} (long : ¬ commit.Fits) (rest : List (Commit H)) :
    (commit :: rest).takeWhile (fun commit => decide commit.Fits) = [] :=
  List.takeWhile_cons_of_neg (by rwa [decide_eq_true_eq])

section Interruption

variable {core : ConsensusCore H} {call : Call H}

theorem fits_of_mem_observeQcCommits {qc : Option (QC H)} (prunable : ¬ Unprunable qc) :
    ∀ commit ∈ core.observeQcCommits qc, commit.Fits := by
  cases qc with
  | none => exact List.forall_mem_nil _
  | some qc =>
      intro commit mem
      by_cases precommit : qc.phase = .precommit
      · have small : qc.round ≤ maxColumnInteger := by
          by_contra large
          exact prunable ⟨qc, rfl, precommit, not_le.mp large⟩
        simp only [observeQcCommits, precommit, if_true, ConsensusStore.saveQcCommits,
          ConsensusStore.updateLockedQcCommits, ConsensusStore.savePacemakerStateCommits,
          List.cons_append, List.nil_append, List.mem_cons, List.not_mem_nil, or_false] at mem
        rcases mem with rfl | rfl | rfl | rfl | rfl | rfl
        case inr.inr.inr.inl => exact small
        case inr.inr.inr.inr.inl => exact small
        all_goals trivial
      · simp only [observeQcCommits, precommit, if_false, ConsensusStore.saveQcCommits,
          ConsensusStore.savePacemakerStateCommits, List.cons_append, List.nil_append,
          List.mem_cons, List.not_mem_nil, or_false] at mem
        rcases mem with rfl | rfl | rfl <;> trivial

theorem fits_of_mem_observeTcCommits {tc : Option (TC H)} :
    ∀ commit ∈ core.observeTcCommits tc, commit.Fits := by
  cases tc with
  | none => exact List.forall_mem_nil _
  | some tc =>
      intro commit mem
      simp only [observeTcCommits, ConsensusStore.saveTcCommits,
        ConsensusStore.savePacemakerStateCommits, List.cons_append, List.nil_append,
        List.mem_cons, List.not_mem_nil, or_false] at mem
      rcases mem with rfl | rfl | rfl <;> trivial

theorem fits_of_mem_validateProposalCommits {proposal : Proposal H} {justifyQc : Option (QC H)}
    (prunable : ¬ Unprunable justifyQc) :
    ∀ commit ∈ core.validateProposalCommits proposal justifyQc, commit.Fits := by
  intro commit mem
  rcases List.mem_append.mp mem with observing | saving
  · exact fits_of_mem_observeQcCommits prunable commit observing
  · split at saving
    · cases saving
    · obtain rfl := List.mem_singleton.mp saving
      trivial

theorem takeWhile_observeQcCommits {qc : QC H} (precommit : qc.phase = .precommit)
    (large : maxColumnInteger < qc.round) (rest : List (Commit H)) :
    (core.observeQcCommits (some qc) ++ rest).takeWhile (fun commit => decide commit.Fits) =
      (core.observeQcCommits (some qc)).take 3 := by
  have saves : (Commit.qc (qcHash qc) qc).Fits := trivial
  have writes : ∀ state : RuntimeState H, (Commit.runtimeState state).Fits := fun _ => trivial
  have refused : ¬ (Commit.pruneVoteLog qc.round : Commit H).Fits := not_le.mpr large
  simp only [observeQcCommits, precommit, if_true, ConsensusStore.saveQcCommits,
    ConsensusStore.updateLockedQcCommits, List.cons_append, List.nil_append]
  rw [takeWhile_fits saves, takeWhile_fits (writes _), takeWhile_fits (writes _),
    takeWhile_not_fits refused]
  rfl

theorem fits_of_mem_acceptVote {vote : Vote H} (fits : vote.record.Fits) :
    ∀ commit ∈ core.commits (.acceptVote vote), commit.Fits := by
  intro commit mem
  cases added : core.voteCollector.addVote vote core.validatorSet with
  | error message =>
      simp only [commits, added] at mem
      cases mem
  | ok result =>
      simp only [commits, added, List.mem_cons] at mem
      rcases mem with rfl | saving
      · exact fits
      · refine fits_of_mem_observeQcCommits ?_ commit saving
        -- The formed certificate is of the round of the vote.
        rintro ⟨formed, formed_mem, -, large⟩
        rw [(VoteCollector.addVote_eq_ok.mp added).2.2.2.2] at formed_mem
        split at formed_mem
        · obtain rfl := Option.mem_some_iff.mp formed_mem
          exact absurd fits.2 (not_le.mpr large)
        · cases formed_mem

theorem not_overflows_acceptVote {vote : Vote H} (fits : vote.record.Fits) :
    ¬ core.Overflows (.acceptVote vote) := by
  rintro ⟨commit, mem, long⟩
  exact long (fits_of_mem_acceptVote fits commit mem)

/-- What a call leaves behind that raises. -/
theorem interruption (overflows : core.Overflows call) :
    core.Interruption call (core.interrupt call) (core.transactions call) := by
  obtain ⟨refused, mem, large⟩ := overflows
  -- A justifying or observed certificate that cannot be pruned.
  have unprunable : ∀ {call : Call H} {qc : Option (QC H)} {rest : List (Commit H)},
      Unprunable qc → core.savedQc call = qc → core.savedTc call = none →
      commitsBefore call = 0 → core.commits call = core.observeQcCommits qc ++ rest →
      core.Interruption call (qc.elim core core.lockInMemory) (core.transactions call) := by
    rintro call _ rest ⟨qc, rfl, precommit, round_large⟩ saves silent first commits_eq
    rw [transactions, commits_eq, takeWhile_observeQcCommits precommit round_large]
    exact .unprunable rest saves silent precommit round_large first commits_eq
  cases call with
  | observeQc qc =>
      by_cases prunable : Unprunable qc
      · exact unprunable prunable rfl rfl rfl (List.append_nil _).symm
      · exact absurd (fits_of_mem_observeQcCommits prunable refused mem) large
  | observeTc tc => exact absurd (fits_of_mem_observeTcCommits refused mem) large
  | validateProposal proposal justifyQc =>
      by_cases prunable : Unprunable justifyQc
      · exact unprunable prunable rfl rfl rfl rfl
      · exact absurd (fits_of_mem_validateProposalCommits prunable refused mem) large
  | makeVote proposal justifyQc phase =>
      by_cases prunable : Unprunable justifyQc
      · rw [interrupt, if_pos prunable]
        exact unprunable prunable rfl rfl rfl (List.append_assoc _ _ _)
      · rcases List.mem_append.mp mem with validating | recording
        · exact absurd (fits_of_mem_validateProposalCommits prunable refused validating) large
        · cases made : (core.makeVote proposal justifyQc phase).1 with
          | error message =>
              rw [made] at recording
              cases recording
          | ok vote =>
              rw [made] at recording
              obtain rfl := List.mem_singleton.mp recording
              have emits : core.emitted (.makeVote proposal justifyQc phase) = some vote := by
                rw [emitted, made]
                rfl
              have transactions_eq : core.transactions (.makeVote proposal justifyQc phase) =
                  core.commits (.validateProposal proposal justifyQc) := by
                simp only [transactions, commits, made]
                rw [List.takeWhile_append_of_pos, List.takeWhile_cons_of_neg, List.append_nil]
                · simpa using large
                · intro commit validating
                  exact decide_eq_true
                    (fits_of_mem_validateProposalCommits prunable commit validating)
              obtain ⟨-, vote_eq⟩ := Session.emitted_makeVote.mp emits
              rw [transactions_eq, interrupt, if_neg prunable]
              have next := Interruption.unrecorded emits prunable large
              rw [vote_eq] at next
              have choices : (core.validateProposal proposal justifyQc).2.localVoteChoice =
                  core.localVoteChoice := localVoteChoice_perform core
                    (.validateProposal proposal justifyQc) rfl
              dsimp only
              rw [choices]
              exact next
  | acceptVote vote =>
      cases added : core.voteCollector.addVote vote core.validatorSet with
      | error message =>
          simp only [commits, added] at mem
          cases mem
      | ok result =>
          obtain ⟨qc, collector⟩ := result
          have long : ¬ vote.record.Fits :=
            fun fits => large (fits_of_mem_acceptVote fits refused mem)
          have transactions_eq : core.transactions (.acceptVote vote) = [] := by
            simp only [transactions, commits, added]
            exact takeWhile_not_fits long _
          rw [transactions_eq, interrupt, added]
          exact .unsaved collector core.timeoutVoteCollector core.localTimeoutRounds
            (if_neg long) rfl rfl
  | makeTimeoutVote height round =>
      cases made : (core.makeTimeoutVote height round).1 with
      | error message =>
          simp only [commits, made] at mem
          cases mem
      | ok vote =>
          have transactions_eq : core.transactions (.makeTimeoutVote height round) = [] := by
            simp only [commits, made] at mem
            obtain rfl := List.mem_singleton.mp mem
            simp only [transactions, commits, made]
            exact takeWhile_not_fits large []
          rw [transactions_eq, interrupt]
          exact .unsaved core.voteCollector core.timeoutVoteCollector _ rfl rfl rfl
  | acceptTimeoutVote timeoutVote =>
      cases added : core.timeoutVoteCollector.addTimeoutVote timeoutVote core.validatorSet with
      | error message =>
          simp only [commits, added] at mem
          cases mem
      | ok result =>
          obtain ⟨tc, collector⟩ := result
          have long : ¬ timeoutVote.record.Fits := by
            intro fits
            simp only [commits, added, List.mem_cons] at mem
            rcases mem with rfl | saving
            · exact large fits
            · exact large (fits_of_mem_observeTcCommits refused saving)
          have transactions_eq : core.transactions (.acceptTimeoutVote timeoutVote) = [] := by
            simp only [transactions, commits, added]
            exact takeWhile_not_fits long _
          rw [transactions_eq, interrupt, added]
          exact .unsaved core.voteCollector collector core.localTimeoutRounds rfl
            (if_neg long) rfl

end Interruption

/-! ## What a stored call changes -/

namespace Interruption

variable {core next : ConsensusCore H} {call : Call H} {commits : List (Commit H)}

theorem identity (interruption : core.Interruption call next commits) :
    next.localValidatorId = core.localValidatorId ∧ next.validatorSet = core.validatorSet ∧
      next.chainId = core.chainId ∧ next.epochId = core.epochId := by
  cases interruption with
  | unprunable => exact ⟨rfl, rfl, rfl, rfl⟩
  | unrecorded => exact identity_perform core (.validateProposal _ _)
  | unsaved => exact ⟨rfl, rfl, rfl, rfl⟩

theorem pacemaker (interruption : core.Interruption call next commits) :
    next.pacemaker =
      (core.pacemaker.afterQc (core.savedQc call)).afterTc (core.savedTc call) := by
  cases interruption with
  | unprunable rest saves silent precommit =>
      rw [saves, silent]
      simp only [PacemakerState.afterQc, PacemakerState.afterTc, lockInMemory, precommit, if_true]
      rfl
  | unrecorded => exact pacemaker_perform core (.validateProposal _ _)
  | unsaved votes timeouts rounds qc_eq tc_eq =>
      rw [qc_eq, tc_eq]
      rfl

theorem highestQc (interruption : core.Interruption call next commits) :
    next.highestQc = highestAfter core.highestQc (core.savedQc call) := by
  cases interruption with
  | unprunable rest saves silent precommit =>
      rw [saves, ← highestQc_observeQc]
      simp only [ConsensusCore.highestQc, ConsensusCore.observeQc, precommit, if_true]
      rfl
  | unrecorded => exact highestQc_perform core (.validateProposal _ _)
  | unsaved votes timeouts rounds qc_eq =>
      rw [qc_eq]
      rfl

theorem lockedQc (interruption : core.Interruption call next commits) :
    next.lockedQc = lockAfter core.lockedQc (core.savedQc call) := by
  cases interruption with
  | unprunable rest saves silent precommit =>
      rw [saves, ← lockedQc_observeQc]
      simp only [ConsensusCore.lockedQc, ConsensusCore.observeQc, precommit, if_true]
      rfl
  | unrecorded => exact lockedQc_perform core (.validateProposal _ _)
  | unsaved votes timeouts rounds qc_eq =>
      rw [qc_eq]
      rfl

theorem mirrors (interruption : core.Interruption call next commits) {db : ConsensusDatabase H}
    (mirrors : db.Mirrors core.store) : (db.applyAll commits).Mirrors next.store := by
  cases interruption with
  | @unprunable _ qc rest saves silent precommit =>
      simp only [observeQcCommits, precommit, if_true]
      exact
        { pacemaker := rfl
          proposals := mirrors.proposals
          qcs := congrArg (OrderedDict.set · _ _) mirrors.qcs
          tcs := mirrors.tcs
          voteLog := mirrors.voteLog
          timeoutLog := mirrors.timeoutLog }
  | unrecorded => exact mirrors.perform (.validateProposal _ _)
  | unsaved => exact mirrors

/-- The choice of a vote that could not be recorded stays in memory. -/
theorem localVoteChoice (interruption : core.Interruption call next commits) :
    next.localVoteChoice = core.localVoteChoice ∨
      ∃ vote, core.emitted call = some vote ∧
        next.localVoteChoice = core.localVoteChoice.set (vote.height, vote.round, vote.phase)
          vote.blockHash := by
  cases interruption with
  | unprunable => exact .inl rfl
  | unrecorded emits => exact .inr ⟨_, emits, rfl⟩
  | unsaved => exact .inl rfl

end Interruption

section Saving

variable (core : ConsensusCore H) (call : Call H)

/-- A call that observes a certificate saves the pacemaker, and any other leaves the saved one. -/
theorem saved_perform_or :
    ((core.perform call).Saved ∧ (core.observed call ≠ none ∨ core.observedTc call ≠ none)) ∨
      core.observed call = none ∧ core.observedTc call = none ∧
        (core.perform call).store.pacemakerState = core.store.pacemakerState := by
  have observing : ∀ (core next : ConsensusCore H) (qc : Option (QC H)),
      next.pacemaker = (core.observeQc qc).pacemaker →
      next.store.pacemakerState = (core.observeQc qc).store.pacemakerState →
      (next.Saved ∧ (qc ≠ none ∨ (none : Option (TC H)) ≠ none)) ∨
        qc = none ∧ (none : Option (TC H)) = none ∧
          next.store.pacemakerState = core.store.pacemakerState := by
    intro core next qc pacemaker_eq saved_eq
    rw [Saved, saved_eq, pacemaker_eq]
    cases qc with
    | none => exact .inr ⟨rfl, rfl, rfl⟩
    | some qc => exact .inl ⟨rfl, .inl (Option.some_ne_none _)⟩
  cases call with
  | observeQc qc => exact observing core _ qc rfl rfl
  | observeTc tc =>
      cases tc with
      | none => exact .inr ⟨rfl, rfl, rfl⟩
      | some tc => exact .inl ⟨rfl, .inr (Option.some_ne_none _)⟩
  | validateProposal proposal justifyQc =>
      refine observing core _ justifyQc ?_ ?_ <;>
        · simp only [perform, validateProposal_snd]
          split <;> rfl
  | makeVote proposal justifyQc phase =>
      refine observing core _ justifyQc ?_ ?_ <;>
        · simp only [perform, makeVote_snd, validateProposal_snd]
          split <;> split <;> rfl
  | acceptVote vote =>
      simp only [perform, observed, observedTc, acceptVote]
      cases core.voteCollector.addVote vote core.validatorSet with
      | error message => exact .inr ⟨rfl, trivial, rfl⟩
      | ok result =>
          obtain ⟨_ | qc, collector⟩ := result
          · exact .inr ⟨rfl, trivial, rfl⟩
          · exact .inl ⟨rfl, .inl (Option.some_ne_none _)⟩
  | makeTimeoutVote height round =>
      refine .inr ⟨rfl, rfl, ?_⟩
      simp only [perform, makeTimeoutVote]
      split_ifs <;> rfl
  | acceptTimeoutVote timeoutVote =>
      simp only [perform, observed, observedTc, acceptTimeoutVote]
      cases core.timeoutVoteCollector.addTimeoutVote timeoutVote core.validatorSet with
      | error message => exact .inr ⟨trivial, rfl, rfl⟩
      | ok result =>
          obtain ⟨_ | tc, collector⟩ := result
          · exact .inr ⟨trivial, rfl, rfl⟩
          · exact .inl ⟨rfl, .inr (Option.some_ne_none _)⟩

end Saving

namespace Interruption

variable {core next : ConsensusCore H} {call : Call H} {commits : List (Commit H)}

theorem saved_or (interruption : core.Interruption call next commits) :
    next.Saved ∨ next.store.pacemakerState = core.store.pacemakerState := by
  cases interruption with
  | unprunable => exact .inr rfl
  | unrecorded =>
      exact (core.saved_perform_or (.validateProposal _ _)).imp And.left fun silent => silent.2.2
  | unsaved => exact .inr rfl

/-- No call is interrupted between pruning the vote log and saving the pacemaker. -/
theorem saved_of_pruned (interruption : core.Interruption call next commits) {qc : QC H}
    (observes : qc ∈ core.observed call) (late : commitsBefore call + 4 ≤ commits.length) :
    next.Saved ∧ core.savedQc call = some qc := by
  cases interruption with
  | unprunable =>
      rw [List.length_take] at late
      omega
  | @unrecorded proposal justifyQc phase vote emits =>
      have justified : justifyQc = some qc := observes
      refine ⟨((core.saved_perform_or (.validateProposal proposal justifyQc)).resolve_right ?_).1,
        justified⟩
      rintro ⟨absent, -⟩
      cases justified.symm.trans absent
  | unsaved => exact absurd late (by simp)

end Interruption

section Stored

variable (core : ConsensusCore H) (call : Call H)

theorem commits_makeVote (proposal : Proposal H) (justifyQc : Option (QC H))
    (phase : VotePhase) :
    core.commits (.makeVote proposal justifyQc phase) =
      core.validateProposalCommits proposal justifyQc ++
        (core.emitted (.makeVote proposal justifyQc phase)).toList.map Vote.record := by
  simp only [commits, emitted]
  cases (core.makeVote proposal justifyQc phase).1 <;> rfl

theorem transactions_of_fits (fits : ∀ commit ∈ core.commits call, commit.Fits) :
    core.transactions call = core.commits call :=
  List.takeWhile_eq_self_iff.mpr fun commit mem => decide_eq_true (fits commit mem)

/-- Transactions that go through are the first ones of the call. -/
theorem eq_take_of_prefix {part : List (Commit H)} (through : part <+: core.transactions call) :
    part = (core.commits call).take part.length :=
  List.prefix_iff_eq_take.mp (through.trans (List.takeWhile_prefix _))

theorem saved_of_fits (fits : ∀ commit ∈ core.commits call, commit.Fits) :
    core.savedQc call = core.observed call ∧ core.savedTc call = core.observedTc call := by
  cases call with
  | acceptVote vote =>
      refine ⟨?_, rfl⟩
      cases added : core.voteCollector.addVote vote core.validatorSet with
      | error message => simp [savedQc, observed, acceptVote, added, Except.toOption]
      | ok result =>
          simp only [commits, added] at fits
          exact if_pos (fits _ (List.mem_cons_self ..))
  | acceptTimeoutVote timeoutVote =>
      refine ⟨rfl, ?_⟩
      cases added : core.timeoutVoteCollector.addTimeoutVote timeoutVote core.validatorSet with
      | error message => simp [savedTc, observedTc, acceptTimeoutVote, added, Except.toOption]
      | ok result =>
          simp only [commits, added] at fits
          exact if_pos (fits _ (List.mem_cons_self ..))
  | _ => exact ⟨rfl, rfl⟩

/-- A stored call runs to its end or is interrupted. -/
theorem stored_cases :
    (¬ core.Overflows call ∧ core.performStored call = core.perform call ∧
        core.emittedStored call = core.emitted call ∧
        core.transactions call = core.commits call ∧
        core.savedQc call = core.observed call ∧ core.savedTc call = core.observedTc call) ∨
      core.Overflows call ∧ core.emittedStored call = none ∧
        core.Interruption call (core.performStored call) (core.transactions call) := by
  by_cases overflows : core.Overflows call
  · rw [performStored, if_pos overflows, emittedStored, if_pos overflows]
    exact .inr ⟨overflows, rfl, interruption overflows⟩
  · have fits : ∀ commit ∈ core.commits call, commit.Fits := by
      intro commit mem
      by_contra long
      exact overflows ⟨commit, mem, long⟩
    rw [performStored, if_neg overflows, emittedStored, if_neg overflows]
    exact .inl ⟨overflows, rfl, rfl, transactions_of_fits core call fits,
      saved_of_fits core call fits⟩

theorem identity_performStored :
    (core.performStored call).localValidatorId = core.localValidatorId ∧
      (core.performStored call).validatorSet = core.validatorSet ∧
      (core.performStored call).chainId = core.chainId ∧
      (core.performStored call).epochId = core.epochId := by
  rcases core.stored_cases call with ⟨-, performs, -⟩ | ⟨-, -, interrupted⟩
  · rw [performs]
    exact identity_perform core call
  · exact interrupted.identity

theorem pacemaker_performStored :
    (core.performStored call).pacemaker =
      (core.pacemaker.afterQc (core.savedQc call)).afterTc (core.savedTc call) := by
  rcases core.stored_cases call with ⟨-, performs, -, -, qc_eq, tc_eq⟩ | ⟨-, -, interrupted⟩
  · rw [performs, qc_eq, tc_eq]
    exact pacemaker_perform core call
  · exact interrupted.pacemaker

theorem highestQc_performStored :
    (core.performStored call).highestQc = highestAfter core.highestQc (core.savedQc call) := by
  rcases core.stored_cases call with ⟨-, performs, -, -, qc_eq, -⟩ | ⟨-, -, interrupted⟩
  · rw [performs, qc_eq]
    exact highestQc_perform core call
  · exact interrupted.highestQc

theorem lockedQc_performStored :
    (core.performStored call).lockedQc = lockAfter core.lockedQc (core.savedQc call) := by
  rcases core.stored_cases call with ⟨-, performs, -, -, qc_eq, -⟩ | ⟨-, -, interrupted⟩
  · rw [performs, qc_eq]
    exact lockedQc_perform core call
  · exact interrupted.lockedQc

theorem atMost_performStored : core.pacemaker.AtMost (core.performStored call).pacemaker := by
  rw [pacemaker_performStored]
  exact (PacemakerState.atMost_afterQc _ _).trans (PacemakerState.atMost_afterTc _ _)

/-- The tables mirror the store also after a call that raised. -/
theorem mirrors_performStored {db : ConsensusDatabase H} (mirrors : db.Mirrors core.store) :
    (db.applyAll (core.transactions call)).Mirrors (core.performStored call).store := by
  rcases core.stored_cases call with ⟨-, performs, -, all, -⟩ | ⟨-, -, interrupted⟩
  · rw [performs, all]
    exact mirrors.perform call
  · exact interrupted.mirrors mirrors

theorem localVoteChoice_performStored :
    (core.performStored call).localVoteChoice = core.localVoteChoice ∨
      ∃ vote, core.emitted call = some vote ∧
        (core.performStored call).localVoteChoice =
          core.localVoteChoice.set (vote.height, vote.round, vote.phase) vote.blockHash := by
  rcases core.stored_cases call with ⟨-, performs, -⟩ | ⟨-, -, interrupted⟩
  · rw [performs]
    cases emits : core.emitted call with
    | none => exact .inl (localVoteChoice_perform core call emits)
    | some vote =>
        obtain ⟨proposal, justifyQc, phase, -, rfl, -, -, choice⟩ := emitted_eq_some emits
        exact .inr ⟨_, rfl, choice⟩
  · exact interrupted.localVoteChoice

theorem saved_performStored_or :
    (core.performStored call).Saved ∨
      (core.performStored call).store.pacemakerState = core.store.pacemakerState := by
  rcases core.stored_cases call with ⟨-, performs, -⟩ | ⟨-, -, interrupted⟩
  · rw [performs]
    exact (core.saved_perform_or call).imp And.left fun silent => silent.2.2
  · exact interrupted.saved_or

/-- Once the vote log was pruned for a certificate, the pacemaker is saved. -/
theorem saved_of_pruned {qc : QC H} (observes : qc ∈ core.observed call)
    (late : commitsBefore call + 4 ≤ (core.transactions call).length) :
    (core.performStored call).Saved ∧ core.savedQc call = some qc := by
  rcases core.stored_cases call with ⟨-, performs, -, -, qc_eq, -⟩ | ⟨-, -, interrupted⟩
  · rw [performs, qc_eq]
    refine ⟨((core.saved_perform_or call).resolve_right fun silent => ?_).1, observes⟩
    rw [silent.1] at observes
    cases observes
  · exact interrupted.saved_of_pruned observes late

variable {core} in
/-- A vote is returned when `make_vote` grants it and all that is saved with it fits. -/
theorem emittedStored_makeVote {proposal : Proposal H} {justifyQc : Option (QC H)}
    {phase : VotePhase} {vote : Vote H} :
    core.emittedStored (.makeVote proposal justifyQc phase) = some vote ↔
      core.emitted (.makeVote proposal justifyQc phase) = some vote ∧
        ¬ Unprunable justifyQc ∧ vote.record.Fits := by
  have commits_eq : core.emitted (.makeVote proposal justifyQc phase) = some vote →
      core.commits (.makeVote proposal justifyQc phase) =
        core.validateProposalCommits proposal justifyQc ++ [vote.record] := by
    intro emits
    rw [commits_makeVote, emits]
    rfl
  constructor
  · intro stored
    rcases core.stored_cases (.makeVote proposal justifyQc phase) with
      ⟨completes, -, emitted_eq, -⟩ | ⟨-, silent, -⟩
    · have emits := emitted_eq.symm.trans stored
      have fits : ∀ commit ∈ core.validateProposalCommits proposal justifyQc ++ [vote.record],
          commit.Fits := by
        rw [← commits_eq emits]
        intro commit mem
        by_contra long
        exact completes ⟨commit, mem, long⟩
      refine ⟨emits, ?_, fits _ (List.mem_append_right _ (List.mem_singleton_self _))⟩
      rintro ⟨qc, rfl, precommit, large⟩
      refine absurd (fits (.pruneVoteLog qc.round) ?_) (not_le.mpr large)
      simp [validateProposalCommits, observeQcCommits, precommit]
    · cases silent.symm.trans stored
  · rintro ⟨emits, prunable, fits⟩
    rw [emittedStored, if_neg, emits]
    rintro ⟨commit, mem, long⟩
    rw [commits_eq emits, List.mem_append, List.mem_singleton] at mem
    rcases mem with validating | rfl
    · exact long (fits_of_mem_validateProposalCommits prunable commit validating)
    · exact long fits

/-- What a requested vote does to the local choices. -/
theorem localVoteChoice_makeStored (proposal : Proposal H) (justifyQc : Option (QC H))
    (phase : VotePhase) :
    (core.performStored (.makeVote proposal justifyQc phase)).localVoteChoice =
      if core.emitted (.makeVote proposal justifyQc phase) = none ∨ Unprunable justifyQc then
        core.localVoteChoice
      else
        core.localVoteChoice.set (proposal.height, proposal.round, phase) proposal.blockHash := by
  cases emits : core.emitted (.makeVote proposal justifyQc phase) with
  | none =>
      rw [if_pos (.inl rfl)]
      apply (core.localVoteChoice_performStored _).resolve_right
      rintro ⟨vote, made, -⟩
      cases emits.symm.trans made
  | some vote =>
      have vote_eq := (Session.emitted_makeVote.mp emits).2
      rcases core.stored_cases (.makeVote proposal justifyQc phase) with
        ⟨-, performs, emitted_eq, -⟩ | ⟨overflows, -, -⟩
      · have prunable := (emittedStored_makeVote.mp (emitted_eq.trans emits)).2.1
        obtain ⟨_, _, _, call_eq, -, -, -, choice⟩ := emitted_eq_some emits
        obtain ⟨rfl, rfl, rfl⟩ := Call.makeVote.inj call_eq
        rw [performs, choice, if_neg (by simp [prunable])]
      · rw [performStored, if_pos overflows, interrupt]
        by_cases unprunable : Unprunable justifyQc
        · rw [if_pos unprunable, if_pos (.inr unprunable)]
          cases justifyQc <;> rfl
        · rw [if_neg unprunable, if_neg (by simp [unprunable])]
          have kept : (core.validateProposal proposal justifyQc).2.localVoteChoice =
              core.localVoteChoice :=
            localVoteChoice_perform core (.validateProposal proposal justifyQc) rfl
          rw [← kept]

/-- A vote that does not fit is only counted. -/
theorem performStored_of_long {vote : Vote H} (long : ¬ vote.record.Fits) :
    ∃ collector, core.performStored (.acceptVote vote) =
      { core with voteCollector := collector } := by
  cases added : core.voteCollector.addVote vote core.validatorSet with
  | error message =>
      refine ⟨core.voteCollector, ?_⟩
      rw [performStored]
      split
      · simp only [interrupt, added]
      · simp only [perform, acceptVote, added]
  | ok result =>
      refine ⟨result.2, ?_⟩
      rw [performStored, if_pos]
      · simp only [interrupt, added]
      · refine ⟨vote.record, ?_, long⟩
        simp only [commits, added]
        exact List.mem_cons_self ..

end Stored

/-- The saved pacemaker is not ahead of the one in memory. -/
def SavedAtMost (core : ConsensusCore H) : Prop := core.store.pacemakerState.AtMost core.pacemaker

variable {core : ConsensusCore H}

theorem SavedAtMost.performStored (saved : core.SavedAtMost) (call : Call H) :
    (core.performStored call).SavedAtMost := by
  rw [SavedAtMost]
  rcases core.saved_performStored_or call with saves | kept
  · rw [saves]
    exact .refl _
  · rw [kept]
    exact saved.trans (core.atMost_performStored call)

/-- The saved pacemaker never goes back. -/
theorem SavedAtMost.atMost_saved (saved : core.SavedAtMost) (call : Call H) :
    core.store.pacemakerState.AtMost (core.performStored call).store.pacemakerState := by
  rcases core.saved_performStored_or call with saves | kept
  · rw [saves]
    exact saved.trans (core.atMost_performStored call)
  · rw [kept]
    exact .refl _

end ConsensusCore

end EZChain
