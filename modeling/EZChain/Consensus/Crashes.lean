import EZChain.Consensus.Overflow
import EZChain.Library.Runs

/-!
# Crashes of a validator

A process may stop after any of its commits and is built again from what the database holds then.
Between dropping the logged votes of the rounds before a lock and saving the moved pacemaker the
database allows votes that it no longer remembers.
-/

namespace EZChain

variable {H : Type}

/-! ## A part of the commits of a call -/

/-- A commit that writes neither a quorum certificate nor the row of the runtime state. -/
def Commit.Plain : Commit H → Prop
  | .qc _ _ | .runtimeState _ => False
  | _ => True

/-- A commit leaves an entry of the vote log as it is. -/
def Commit.Keeps (height round : ℕ) (phase : VotePhase) (voterId : String) (blockHash : H) :
    Commit H → Prop
  | .voteRecord height' round' phase' voterId' blockHash' =>
      (height', round', phase', voterId') = (height, round, phase, voterId) → blockHash' = blockHash
  | .pruneVoteLog keepRound => keepRound ≤ round
  | _ => True

namespace ConsensusDatabase

variable [DecidableEq H]

theorem row_applyAll_of_plain (db : ConsensusDatabase H) {commits : List (Commit H)}
    (plain : ∀ commit ∈ commits, commit.Plain) :
    (db.applyAll commits).row = db.row ∧ (db.applyAll commits).qcs = db.qcs := by
  induction commits generalizing db with
  | nil => exact ⟨rfl, rfl⟩
  | cons commit rest induction =>
      obtain ⟨commit_plain, rest_plain⟩ := List.forall_mem_cons.mp plain
      obtain ⟨row_eq, qcs_eq⟩ := induction (db.apply commit) rest_plain
      rw [applyAll_cons, row_eq, qcs_eq]
      cases commit with
      | qc hash qc => exact commit_plain.elim
      | runtimeState state => exact commit_plain.elim
      | _ => exact ⟨rfl, rfl⟩

theorem row_applyAll_congr {db other : ConsensusDatabase H} (row_eq : db.row = other.row)
    (qcs_eq : db.qcs = other.qcs) (commits : List (Commit H)) :
    (db.applyAll commits).row = (other.applyAll commits).row ∧
      (db.applyAll commits).qcs = (other.applyAll commits).qcs := by
  induction commits generalizing db other with
  | nil => exact ⟨row_eq, qcs_eq⟩
  | cons commit rest induction =>
      simp only [applyAll_cons]
      cases commit with
      | qc hash qc => exact induction row_eq (congrArg (OrderedDict.set · hash qc) qcs_eq)
      | runtimeState state => exact induction rfl qcs_eq
      | _ => exact induction row_eq qcs_eq

theorem voteLog_applyAll_of_keeps {db : ConsensusDatabase H} {commits : List (Commit H)}
    {height round : ℕ} {phase : VotePhase} {voterId : String}
    {blockHash : H}
    (keeps : ∀ commit ∈ commits, commit.Keeps height round phase voterId blockHash)
    (logged : db.voteLog.get? (height, round, phase, voterId) = some blockHash) :
    (db.applyAll commits).voteLog.get? (height, round, phase, voterId) = some blockHash := by
  induction commits generalizing db with
  | nil => exact logged
  | cons commit rest induction =>
      obtain ⟨commit_keeps, rest_keeps⟩ := List.forall_mem_cons.mp keeps
      rw [applyAll_cons]
      apply induction rest_keeps
      cases commit with
      | voteRecord height' round' phase' voterId' blockHash' =>
          simp only [apply, OrderedDict.get?_set]
          split
          next same => rw [commit_keeps same]
          · exact logged
      | pruneVoteLog keepRound =>
          simp only [apply, OrderedDict.get?_filterKeys]
          have kept : keepRound ≤ round := commit_keeps
          rw [if_pos (decide_eq_true kept), logged]
      | _ => exact logged

end ConsensusDatabase

namespace ConsensusCore

open ConsensusDatabase

/-- The number of commits that save a quorum certificate. -/
def qcCommits : Option (QC H) → ℕ
  | none => 0
  | some qc => if qc.phase = .precommit then 6 else 3

/-- The number of commits that save a timeout certificate. -/
def tcCommits : Option (TC H) → ℕ
  | none => 0
  | some _ => 3

variable [DecidableEq H] [Crypto H]

/-- The commits of a call around those that save its certificate. -/
structure Split (core : ConsensusCore H) (call : Call H) where
  before : List (Commit H)
  after : List (Commit H)
  saving : ConsensusCore H
  commits_eq : core.commits call = before ++ (saving.observeQcCommits (core.observed call) ++
    saving.observeTcCommits (core.observedTc call)) ++ after
  length_before : core.observed call ≠ none ∨ core.observedTc call ≠ none →
    before.length = commitsBefore call
  plain : ∀ commit ∈ before ++ after, commit.Plain
  keeps : ∀ commit ∈ before ++ after, ∀ height round phase voterId blockHash,
    (∀ vote ∈ core.loggedVote call, (vote.height, vote.round, vote.phase, vote.voterId) =
      (height, round, phase, voterId) → vote.blockHash = blockHash) →
    commit.Keeps height round phase voterId blockHash
  pacemaker_eq : saving.pacemaker = core.pacemaker := by rfl
  pacemakerState_eq : saving.store.pacemakerState = core.store.pacemakerState := by rfl
  qcs_eq : saving.store.qcs = core.store.qcs := by rfl
  highestQc_eq : saving.highestQc = core.highestQc := by rfl
  lockedQc_eq : saving.lockedQc = core.lockedQc := by rfl

/-- The commits of a validated proposal. -/
def proposalCommits (core : ConsensusCore H) (proposal : Proposal H) (justifyQc : Option (QC H)) :
    List (Commit H) :=
  match (core.observeQc justifyQc).checkProposal proposal justifyQc with
  | .error _ => []
  | .ok () => [.proposal (proposalHash proposal) proposal]

/-- The commits of a returned vote. -/
def voteCommits (core : ConsensusCore H) (proposal : Proposal H) (justifyQc : Option (QC H))
    (phase : VotePhase) : List (Commit H) :=
  match (core.makeVote proposal justifyQc phase).1 with
  | .error _ => []
  | .ok vote => [.voteRecord vote.height vote.round vote.phase vote.voterId vote.blockHash]

/-- Every call makes its commits around those of the certificate that it observes. -/
theorem nonempty_split (core : ConsensusCore H) (call : Call H) : Nonempty (core.Split call) := by
  cases call with
  | observeQc qc =>
      exact
        ⟨{ before := []
           after := []
           saving := core
           commits_eq := by simp [commits, observed, observedTc, observeTcCommits]
           length_before := fun _ => rfl
           plain := List.forall_mem_nil _
           keeps := List.forall_mem_nil _ }⟩
  | observeTc tc =>
      exact
        ⟨{ before := []
           after := []
           saving := core
           commits_eq := by simp [commits, observed, observedTc, observeQcCommits]
           length_before := fun _ => rfl
           plain := List.forall_mem_nil _
           keeps := List.forall_mem_nil _ }⟩
  | validateProposal proposal justifyQc =>
      exact
        ⟨{ before := []
           after := core.proposalCommits proposal justifyQc
           saving := core
           commits_eq :=
             (congrArg (· ++ _) (List.append_nil (core.observeQcCommits justifyQc))).symm
           length_before := fun _ => rfl
           plain := by
             simp only [proposalCommits]
             split <;> simp [Commit.Plain]
           keeps := by
             simp only [proposalCommits]
             split <;> simp [Commit.Keeps] }⟩
  | makeVote proposal justifyQc phase =>
      exact
        ⟨{ before := []
           after := core.proposalCommits proposal justifyQc ++
             core.voteCommits proposal justifyQc phase
           saving := core
           commits_eq :=
             (List.append_assoc (core.observeQcCommits justifyQc) _ _).trans
               (congrArg (· ++ _) (List.append_nil (core.observeQcCommits justifyQc))).symm
           length_before := fun _ => rfl
           plain := by
             simp only [proposalCommits, voteCommits]
             split <;> split <;> simp [Commit.Plain]
           keeps := by
             simp only [proposalCommits, voteCommits, loggedVote]
             cases (core.makeVote proposal justifyQc phase).1 with
             | error message => split <;> simp [Commit.Keeps]
             | ok vote => split <;> simp [Commit.Keeps, Except.toOption] }⟩
  | acceptVote vote =>
      cases added : core.voteCollector.addVote vote core.validatorSet with
      | error message =>
          exact
            ⟨{ before := []
               after := []
               saving := core
               commits_eq := by
                 simp [commits, observed, observedTc, observeQcCommits, observeTcCommits,
                   acceptVote, added, Except.toOption]
               length_before := by
                 simp [observed, observedTc, acceptVote, added, Except.toOption]
               plain := List.forall_mem_nil _
               keeps := List.forall_mem_nil _ }⟩
      | ok result =>
          exact
            ⟨{ before :=
                 [.voteRecord vote.height vote.round vote.phase vote.voterId vote.blockHash]
               after := []
               saving :=
                 { core with
                   voteCollector := result.2
                   store := core.store.saveVoteRecord vote.height vote.round vote.phase
                     vote.voterId vote.blockHash }
               commits_eq := by
                 simp [commits, observed, observedTc, observeTcCommits, acceptVote, added,
                   Except.toOption]
               length_before := fun _ => rfl
               plain := by simp [Commit.Plain]
               keeps := by simp [Commit.Keeps, loggedVote, acceptVote, added] }⟩
  | makeTimeoutVote height round =>
      exact
        ⟨{ before := []
           after := core.commits (.makeTimeoutVote height round)
           saving := core
           commits_eq := rfl
           length_before := fun _ => rfl
           plain := by
             simp only [commits]
             split <;> simp [Commit.Plain]
           keeps := by
             simp only [commits]
             split <;> simp [Commit.Keeps] }⟩
  | acceptTimeoutVote timeoutVote =>
      cases added : core.timeoutVoteCollector.addTimeoutVote timeoutVote core.validatorSet with
      | error message =>
          exact
            ⟨{ before := []
               after := []
               saving := core
               commits_eq := by
                 simp [commits, observed, observedTc, observeQcCommits, observeTcCommits,
                   acceptTimeoutVote, added, Except.toOption]
               length_before := by
                 simp [observed, observedTc, acceptTimeoutVote, added, Except.toOption]
               plain := List.forall_mem_nil _
               keeps := List.forall_mem_nil _ }⟩
      | ok result =>
          exact
            ⟨{ before :=
                 [.timeoutRecord timeoutVote.height timeoutVote.round timeoutVote.voterId
                   (timeoutVote.highQcRound, timeoutVote.highQcHash)]
               after := []
               saving :=
                 { core with
                   timeoutVoteCollector := result.2
                   store := core.store.saveTimeoutRecord timeoutVote.height timeoutVote.round
                     timeoutVote.voterId (timeoutVote.highQcRound, timeoutVote.highQcHash) }
               commits_eq := by
                 simp [commits, observed, observedTc, observeQcCommits, acceptTimeoutVote, added,
                   Except.toOption]
               length_before := fun _ => rfl
               plain := by simp [Commit.Plain]
               keeps := by simp [Commit.Keeps] }⟩

theorem length_observeQcCommits (core : ConsensusCore H) (qc : Option (QC H)) :
    (core.observeQcCommits qc).length = qcCommits qc := by
  cases qc with
  | none => rfl
  | some qc =>
      simp only [observeQcCommits, qcCommits]
      split <;> rfl

/-- A call observes a quorum certificate or a timeout certificate, not both. -/
theorem observed_eq_none_or (core : ConsensusCore H) (call : Call H) :
    core.observed call = none ∨ core.observedTc call = none := by
  cases call with
  | observeTc tc => exact .inl rfl
  | makeTimeoutVote height round => exact .inl rfl
  | acceptTimeoutVote timeoutVote => exact .inl rfl
  | _ => exact .inr rfl

/-- Up to plain commits, a part of the commits of a call is a part of those of its certificate. -/
theorem row_take {core : ConsensusCore H} {call : Call H} (parts : core.Split call)
    (db : ConsensusDatabase H) (count : ℕ) :
    let saving := db.applyAll ((parts.saving.observeQcCommits (core.observed call) ++
      parts.saving.observeTcCommits (core.observedTc call)).take (count - parts.before.length))
    (db.applyAll ((core.commits call).take count)).row = saving.row ∧
      (db.applyAll ((core.commits call).take count)).qcs = saving.qcs := by
  intro saving
  have before_plain : ∀ commit ∈ parts.before.take count, commit.Plain :=
    fun commit mem => parts.plain commit (List.mem_append_left _ (List.mem_of_mem_take mem))
  obtain ⟨row_before, qcs_before⟩ := row_applyAll_of_plain db before_plain
  obtain ⟨row_saving, qcs_saving⟩ := row_applyAll_congr row_before qcs_before
    ((parts.saving.observeQcCommits (core.observed call) ++
      parts.saving.observeTcCommits (core.observedTc call)).take (count - parts.before.length))
  rw [parts.commits_eq, List.take_append, List.take_append, applyAll_append, applyAll_append]
  constructor
  · rw [(row_applyAll_of_plain _ fun commit mem => parts.plain commit
      (List.mem_append_right _ (List.mem_of_mem_take mem))).1]
    exact row_saving
  · rw [(row_applyAll_of_plain _ fun commit mem => parts.plain commit
      (List.mem_append_right _ (List.mem_of_mem_take mem))).2]
    exact qcs_saving

theorem pacemaker_take_observeQc {core : ConsensusCore H} {db : ConsensusDatabase H}
    (row_eq : db.row.pacemaker = core.store.pacemakerState) (qc : QC H) (count : ℕ) :
    (db.applyAll ((core.observeQcCommits (some qc)).take count)).row.pacemaker =
      if count < qcCommits (some qc) then core.store.pacemakerState
      else core.pacemaker.afterQc (some qc) := by
  split
  next early =>
    by_cases precommit : qc.phase = .precommit
    · simp only [qcCommits, precommit, if_true] at early
      simp only [observeQcCommits, precommit, if_true]
      rcases count with _ | _ | count
      · exact row_eq
      · exact row_eq
      · rcases count with _ | _ | _ | _ | count
        all_goals first | rfl | omega
    · simp only [qcCommits, precommit, if_false] at early
      simp only [observeQcCommits, precommit, if_false]
      rcases count with _ | _ | _ | count
      · exact row_eq
      · exact row_eq
      · rfl
      · omega
  next late =>
    rw [List.take_of_length_le (by rw [length_observeQcCommits]; omega), ← pacemaker_observeQc]
    by_cases precommit : qc.phase = .precommit <;>
      simp only [observeQcCommits, precommit, if_true, if_false] <;> rfl

theorem pacemaker_take_observeTc {core : ConsensusCore H} {db : ConsensusDatabase H}
    (row_eq : db.row.pacemaker = core.store.pacemakerState) (tc : TC H) (count : ℕ) :
    (db.applyAll ((core.observeTcCommits (some tc)).take count)).row.pacemaker =
      if count < tcCommits (some tc) then core.store.pacemakerState
      else core.pacemaker.afterTc (some tc) := by
  rcases count with _ | _ | _ | count
  · exact row_eq
  · exact row_eq
  · rfl
  · rw [if_neg (by simp [tcCommits]), List.take_of_length_le
      (by simp [observeTcCommits, ConsensusStore.saveTcCommits,
        ConsensusStore.savePacemakerStateCommits])]
    rfl

/-- The pacemaker that the database holds after a part of the commits of a call: it is saved at
once, with the last commit for a certificate. -/
def savedWithin (core : ConsensusCore H) (call : Call H) (count : ℕ) : PacemakerState :=
  if (core.observed call = none ∧ core.observedTc call = none) ∨
      count < commitsBefore call + qcCommits (core.observed call) +
        tcCommits (core.observedTc call)
    then core.store.pacemakerState else (core.perform call).pacemaker

theorem pacemaker_take {core : ConsensusCore H} {db : ConsensusDatabase H}
    (row_eq : db.row.pacemaker = core.store.pacemakerState) (call : Call H) (count : ℕ) :
    (db.applyAll ((core.commits call).take count)).row.pacemaker =
      core.savedWithin call count := by
  obtain ⟨parts⟩ := core.nonempty_split call
  have saving_row : db.row.pacemaker = parts.saving.store.pacemakerState := by
    rw [parts.pacemakerState_eq, row_eq]
  rw [(row_take parts db count).1, savedWithin, pacemaker_perform]
  have length := parts.length_before
  cases certificate : core.observed call with
  | none =>
      cases timeout : core.observedTc call with
      | none =>
          rw [if_pos (.inl ⟨rfl, rfl⟩)]
          simpa [observeQcCommits, observeTcCommits] using row_eq
      | some tc =>
          simp only [observeQcCommits, List.nil_append, pacemaker_take_observeTc saving_row,
            parts.pacemaker_eq, parts.pacemakerState_eq, qcCommits, PacemakerState.afterQc]
          rw [← length (.inr (by simp [timeout]))]
          refine if_congr ?_ rfl rfl
          simp only [tcCommits, reduceCtorEq, and_false, false_or]
          omega
  | some qc =>
      have absent := (core.observed_eq_none_or call).resolve_left (by simp [certificate])
      simp only [absent, observeTcCommits, List.append_nil, pacemaker_take_observeQc saving_row,
        parts.pacemaker_eq, parts.pacemakerState_eq, tcCommits, PacemakerState.afterTc]
      rw [← length (.inl (by simp [certificate]))]
      refine if_congr ?_ rfl rfl
      simp only [qcCommits, reduceCtorEq, false_and, false_or]
      split_ifs <;> omega

theorem atMost_savedWithin {core : ConsensusCore H}
    (saved : core.SavedAtMost) (call : Call H) (count : ℕ) :
    core.store.pacemakerState.AtMost (core.savedWithin call count) := by
  rw [savedWithin]
  split
  · exact .refl _
  · exact saved.trans (core.atMost_perform call)

theorem keeps_take_observeQc (core : ConsensusCore H) {qc : Option (QC H)} {count round : ℕ}
    (kept : ¬ (Prunes qc round ∧ 4 ≤ count)) (height : ℕ) (phase : VotePhase) (voterId : String)
    (blockHash : H) :
    ∀ commit ∈ (core.observeQcCommits qc).take count,
      commit.Keeps height round phase voterId blockHash := by
  cases qc with
  | none => simp [observeQcCommits]
  | some qc =>
      by_cases precommit : qc.phase = .precommit
      · by_cases late : 4 ≤ count
        · have le : qc.round ≤ round := by
            by_contra older
            exact kept ⟨⟨qc, rfl, precommit, not_le.mp older⟩, late⟩
          intro commit mem
          have mem_all := List.mem_of_mem_take mem
          simp only [observeQcCommits, precommit, if_true, ConsensusStore.saveQcCommits,
            ConsensusStore.updateLockedQcCommits, ConsensusStore.savePacemakerStateCommits,
            List.cons_append, List.nil_append, List.mem_cons, List.not_mem_nil, or_false] at mem_all
          rcases mem_all with rfl | rfl | rfl | rfl | rfl | rfl
          case inr.inr.inr.inl => exact le
          all_goals trivial
        · simp only [observeQcCommits, precommit, if_true, ConsensusStore.saveQcCommits,
            ConsensusStore.updateLockedQcCommits, List.cons_append, List.nil_append]
          rcases count with _ | _ | _ | _ | count
          all_goals first | omega | simp [Commit.Keeps]
      · intro commit mem
        have mem_all := List.mem_of_mem_take mem
        simp only [observeQcCommits, precommit, if_false, ConsensusStore.saveQcCommits,
          ConsensusStore.savePacemakerStateCommits, List.cons_append, List.nil_append,
          List.mem_cons, List.not_mem_nil, or_false] at mem_all
        rcases mem_all with rfl | rfl | rfl <;> trivial

/-- An entry of the vote log survives a part of a call, unless the call has dropped its round or
logs another vote in its place. -/
theorem voteLog_take {core : ConsensusCore H} {db : ConsensusDatabase H} (call : Call H)
    (count : ℕ) {height round : ℕ} {phase : VotePhase} {voterId : String} {blockHash : H}
    (logged : db.voteLog.get? (height, round, phase, voterId) = some blockHash)
    (same : ∀ vote ∈ core.loggedVote call, (vote.height, vote.round, vote.phase, vote.voterId) =
      (height, round, phase, voterId) → vote.blockHash = blockHash)
    (kept : ¬ (Prunes (core.observed call) round ∧ commitsBefore call + 4 ≤ count)) :
    (db.applyAll ((core.commits call).take count)).voteLog.get? (height, round, phase, voterId) =
      some blockHash := by
  obtain ⟨parts⟩ := core.nonempty_split call
  refine voteLog_applyAll_of_keeps (fun commit mem => ?_) logged
  have around := fun commit mem => parts.keeps commit mem height round phase voterId blockHash same
  rw [parts.commits_eq, List.take_append, List.take_append, List.mem_append, List.mem_append] at mem
  rcases mem with (before | saving) | after
  · exact around commit (List.mem_append_left _ (List.mem_of_mem_take before))
  · rw [List.take_append, List.mem_append] at saving
    rcases saving with saving | timeout
    · refine keeps_take_observeQc parts.saving ?_ height phase voterId blockHash commit saving
      rintro ⟨⟨qc, observes, older⟩, late⟩
      have length := parts.length_before (.inl (by rw [Option.mem_def.mp observes]; simp))
      exact kept ⟨⟨qc, observes, older⟩, by omega⟩
    · have mem_all := List.mem_of_mem_take timeout
      cases tc : core.observedTc call with
      | none => simp [tc, observeTcCommits] at mem_all
      | some tc' =>
          simp only [tc, observeTcCommits, ConsensusStore.saveTcCommits,
            ConsensusStore.savePacemakerStateCommits, List.cons_append, List.nil_append,
            List.mem_cons, List.not_mem_nil, or_false] at mem_all
          rcases mem_all with rfl | rfl | rfl <;> trivial
  · exact around commit (List.mem_append_right _ (List.mem_of_mem_take after))

end ConsensusCore

/-! ## Runs with crashes -/

/-- The core that is built from a database. -/
def ConsensusCore.recover [DecidableEq H] [Crypto H] (core : ConsensusCore H)
    (db : ConsensusDatabase H) : ConsensusCore H :=
  { core with store := db.load }.restart

namespace ConsensusCore

variable [DecidableEq H] [Crypto H] (core : ConsensusCore H) (db : ConsensusDatabase H)

theorem identity_recover :
    (core.recover db).localValidatorId = core.localValidatorId ∧
      (core.recover db).validatorSet = core.validatorSet ∧
      (core.recover db).chainId = core.chainId ∧ (core.recover db).epochId = core.epochId := by
  simp [recover]

@[simp]
theorem store_recover : (core.recover db).store = db.load := by
  rw [recover, store_restart]

@[simp]
theorem pacemaker_recover : (core.recover db).pacemaker = db.row.pacemaker := by
  rw [recover, pacemaker_restart, ConsensusDatabase.load]

@[simp]
theorem highestQc_recover : (core.recover db).highestQc = db.load.highestQc := by
  rw [highestQc, store_recover]

@[simp]
theorem lockedQc_recover : (core.recover db).lockedQc = db.load.lockedQc := by
  rw [lockedQc, store_recover]

theorem saved_recover : (core.recover db).Saved := by
  rw [Saved, store_recover, pacemaker_recover, ConsensusDatabase.load]

theorem localVoteChoice_recover (height round : ℕ) (phase : VotePhase) :
    (core.recover db).localVoteChoice.get? (height, round, phase) =
      db.voteLog.get? (height, round, phase, core.localValidatorId) := by
  rw [recover, localVoteChoice_restart, ConsensusDatabase.load]

end ConsensusCore

/-- A validator's process: its core, its database and the votes that it has returned. -/
structure Process (H : Type) where
  /-- The core in memory. -/
  core : ConsensusCore H
  /-- The database on disk. -/
  db : ConsensusDatabase H
  /-- History: the votes that the process has sent. -/
  votes : List (Vote H)

/-- What happens to a process. -/
inductive ProcessEvent (H : Type) where
  /-- A call of the core that returns or raises. -/
  | call (call : ConsensusCore.Call H)
  /-- The process stops after some commits of a call and the core is built again. -/
  | stop (call : ConsensusCore.Call H) (commits : ℕ)

namespace Process

open ConsensusCore

/-- The process of a core with an empty database. -/
def initial (core : ConsensusCore H) : Process H := ⟨core, .empty H, []⟩

variable [DecidableEq H] [Crypto H]

/-- The transactions that go through in an event. -/
def written (process : Process H) : ProcessEvent H → List (Commit H)
  | .call call => process.core.transactions call
  | .stop call commits => (process.core.transactions call).take commits

def step (process : Process H) : ProcessEvent H → Process H
  | .call call =>
      { core := process.core.performStored call
        db := process.db.applyAll (process.written (.call call))
        votes := process.votes ++ (process.core.emittedStored call).toList }
  | .stop call commits =>
      let db := process.db.applyAll (process.written (.stop call commits))
      { process with core := process.core.recover db, db := db }

/-- No two votes of a slot are for different blocks. -/
def NoEquivocation (process : Process H) : Prop :=
  ∀ left ∈ process.votes, ∀ right ∈ process.votes, left.height = right.height →
    left.round = right.round → left.phase = right.phase → left.blockHash = right.blockHash

/-- An inbound vote of the local validator is one that it has returned. -/
def OwnEmitted (process : Process H) : ProcessEvent H → Prop
  | .call call | .stop call _ => ∀ vote, call = .acceptVote vote →
      vote.voterId = process.core.localValidatorId → vote ∈ process.votes

/-- When the process stops after the vote log was pruned for a precommit certificate and before the
moved pacemaker is saved, the dropped votes are of rounds that the saved pacemaker has left behind
before. -/
def StopsSafely (process : Process H) : ProcessEvent H → Prop
  | .call _ => True
  | .stop call commits =>
      let count := (process.written (.stop call commits)).length
      ∀ qc ∈ process.core.observed call, qc.phase = .precommit →
        commitsBefore call + 4 ≤ count → count < commitsBefore call + 6 →
          ∀ vote ∈ process.votes, vote.round < qc.round →
            vote.round + 1 < process.core.store.pacemakerState.currentRound

/-- A vote is of a round that the saved pacemaker has left behind, or it is the local choice and is
logged. -/
def Remembers (process : Process H) (vote : Vote H) : Prop :=
  vote.round + 1 < process.core.store.pacemakerState.currentRound ∨
    process.core.localVoteChoice.get? (vote.height, vote.round, vote.phase) = some vote.blockHash ∧
      process.db.voteLog.get?
        (vote.height, vote.round, vote.phase, process.core.localValidatorId) = some vote.blockHash

/-- The database mirrors the core, and the returned votes agree and are remembered. -/
structure Sound (process : Process H) : Prop where
  saved : process.core.SavedAtMost
  mirrors : process.db.Mirrors process.core.store
  own : ∀ vote ∈ process.votes, vote.voterId = process.core.localValidatorId
  remembers : ∀ vote ∈ process.votes, process.Remembers vote
  agree : process.NoEquivocation

omit [Crypto H] in
theorem sound_initial (chainId epochId : ℕ) {localValidatorId : String}
    {validatorSet : ValidatorSet} (member : validatorSet.contains localValidatorId = true) :
    (initial (fresh (H := H) chainId epochId localValidatorId validatorSet member)).Sound where
  saved := .refl _
  mirrors := ⟨rfl, rfl, rfl, rfl, rfl, rfl⟩
  own := nofun
  remembers := nofun
  agree := nofun

variable {process : Process H}

theorem Sound.blockHash_of_emitted (sound : process.Sound) {call : Call H} {made vote : Vote H}
    (emits : process.core.emitted call = some made) (mem : vote ∈ process.votes)
    (same : (made.height, made.round, made.phase) = (vote.height, vote.round, vote.phase)) :
    made.blockHash = vote.blockHash := by
  obtain ⟨proposal, justifyQc, phase, rfl, -⟩ := emitted_eq_some emits
  obtain ⟨⟨checked, consistent⟩, rfl⟩ := Session.emitted_makeVote.mp emits
  have current := (checkProposal_eq_ok.mp checked).2.2.2.1
  rw [pacemaker_observeQc] at current
  have ahead := (PacemakerState.atMost_afterQc process.core.pacemaker justifyQc).currentRound
  simp only [localVote, Prod.mk.injEq] at same
  obtain ⟨height_eq, round_eq, phase_eq⟩ := same
  rcases sound.remembers vote mem with outdated | ⟨chosen, -⟩
  · have saved := sound.saved.currentRound
    omega
  · rw [← height_eq, ← round_eq, ← phase_eq] at chosen
    exact (consistent _ chosen).symm

theorem Sound.blockHash_of_logged (sound : process.Sound) {call : Call H}
    (own : process.OwnEmitted (.call call)) {logged vote : Vote H}
    (logs : logged ∈ process.core.loggedVote call) (mem : vote ∈ process.votes)
    (same : (logged.height, logged.round, logged.phase, logged.voterId) =
      (vote.height, vote.round, vote.phase, process.core.localValidatorId)) :
    logged.blockHash = vote.blockHash := by
  simp only [Prod.mk.injEq] at same
  obtain ⟨height_eq, round_eq, phase_eq, voter_eq⟩ := same
  cases call with
  | makeVote proposal justifyQc phase =>
      have emits : process.core.emitted (.makeVote proposal justifyQc phase) = some logged := logs
      exact sound.blockHash_of_emitted emits mem (by rw [height_eq, round_eq, phase_eq])
  | acceptVote inbound =>
      simp only [loggedVote] at logs
      split at logs
      · cases logs
      · obtain rfl := Option.some.inj logs
        exact sound.agree _ (own _ rfl voter_eq) _ mem height_eq round_eq phase_eq
  | _ => cases logs

/-- A returned vote stays remembered in a call. -/
theorem Sound.remembers_call (sound : process.Sound) {call : Call H}
    (own : process.OwnEmitted (.call call)) {vote : Vote H} (mem : vote ∈ process.votes) :
    (process.step (.call call)).Remembers vote := by
  rcases sound.remembers vote mem with outdated | ⟨chosen, logged⟩
  · exact .inl (outdated.trans_le (sound.saved.atMost_saved call).currentRound)
  · by_cases pruned : Prunes (process.core.observed call) vote.round ∧
        commitsBefore call + 4 ≤ (process.core.transactions call).length
    · obtain ⟨⟨qc, observes, -, older⟩, late⟩ := pruned
      obtain ⟨saved, saves⟩ := process.core.saved_of_pruned call observes late
      have moved := lt_currentRound_afterQc process.core.pacemaker (Option.mem_def.mpr saves)
      have later := (PacemakerState.atMost_afterTc
        (process.core.pacemaker.afterQc (process.core.savedQc call))
        (process.core.savedTc call)).currentRound
      left
      simp only [step]
      rw [saved, pacemaker_performStored]
      omega
    · right
      have db_logged := voteLog_take call (process.core.transactions call).length logged
        (fun made logs same => sound.blockHash_of_logged own logs mem same) pruned
      rw [← process.core.eq_take_of_prefix call (List.prefix_refl _)] at db_logged
      simp only [step, (identity_performStored _ call).1]
      refine ⟨?_, db_logged⟩
      rcases process.core.localVoteChoice_performStored call with kept | ⟨made, emits, choice⟩
      · rw [kept, chosen]
      · rw [choice, OrderedDict.get?_set]
        split
        next same => rw [← sound.blockHash_of_emitted emits mem same]
        · exact chosen

theorem Sound.remembers_emitted (sound : process.Sound) {call : Call H} {made : Vote H}
    (emits : process.core.emittedStored call = some made) :
    (process.step (.call call)).Remembers made := by
  have mirrored := (process.core.mirrors_performStored call sound.mirrors).voteLog
  rcases process.core.stored_cases call with ⟨-, performs, emitted_eq, -⟩ | ⟨-, silent, -⟩
  · rw [emitted_eq] at emits
    obtain ⟨proposal, justifyQc, phase, rfl, vote_eq, -, -, choice⟩ := emitted_eq_some emits
    obtain ⟨⟨checked, -⟩, -⟩ := Session.emitted_makeVote.mp emits
    have logs : process.core.loggedVote (.makeVote proposal justifyQc phase) = some made := emits
    right
    simp only [step, (identity_performStored _ (.makeVote proposal justifyQc phase)).1]
    constructor
    · rw [performs, choice, vote_eq]
      exact OrderedDict.get?_set_self _ _ _
    · rw [written, mirrored, performs, voteLog_perform, if_neg, logs]
      · simp [vote_eq, localVote]
      · rw [vote_eq]
        exact process.core.not_prunes_of_checked checked
  · cases silent.symm.trans emits

theorem emitted_of_stored {core : ConsensusCore H} {call : Call H} {made : Vote H}
    (emits : core.emittedStored call = some made) : core.emitted call = some made := by
  rcases core.stored_cases call with ⟨-, -, emitted_eq, -⟩ | ⟨-, silent, -⟩
  · rwa [← emitted_eq]
  · cases silent.symm.trans emits

theorem Sound.step_call (sound : process.Sound) {call : Call H}
    (own : process.OwnEmitted (.call call)) : (process.step (.call call)).Sound where
  saved := sound.saved.performStored call
  mirrors := process.core.mirrors_performStored call sound.mirrors
  own := by
    simp only [step, List.mem_append, Option.mem_toList, (identity_performStored _ call).1]
    rintro vote (before | now)
    · exact sound.own vote before
    · obtain ⟨_, _, _, -, rfl, -⟩ := emitted_eq_some (emitted_of_stored now)
      rfl
  remembers := by
    intro vote mem
    simp only [step, List.mem_append, Option.mem_toList] at mem
    rcases mem with before | now
    · exact sound.remembers_call own before
    · exact sound.remembers_emitted now
  agree := by
    intro left left_mem right right_mem height_eq round_eq phase_eq
    simp only [step, List.mem_append, Option.mem_toList] at left_mem right_mem
    rcases left_mem with left_before | left_now <;> rcases right_mem with right_before | right_now
    · exact sound.agree left left_before right right_before height_eq round_eq phase_eq
    · exact (sound.blockHash_of_emitted (emitted_of_stored right_now) left_before
        (by rw [height_eq, round_eq, phase_eq])).symm
    · exact sound.blockHash_of_emitted (emitted_of_stored left_now) right_before
        (by rw [height_eq, round_eq, phase_eq])
    · rw [Option.mem_unique left_now right_now]

theorem Sound.step_stop (sound : process.Sound) {call : Call H} {commits : ℕ}
    (own : process.OwnEmitted (.stop call commits))
    (safe : process.StopsSafely (.stop call commits)) :
    (process.step (.stop call commits)).Sound where
  saved := by
    rw [SavedAtMost, step, store_recover, pacemaker_recover, ConsensusDatabase.load]
    exact .refl _
  mirrors := by
    simp only [step, store_recover]
    exact ⟨rfl, rfl, rfl, rfl, rfl, rfl⟩
  own := by
    simp only [step, (identity_recover _ _).1]
    exact sound.own
  remembers := by
    intro vote mem
    let count := (process.written (.stop call commits)).length
    have written_eq : process.written (.stop call commits) =
        (process.core.commits call).take count :=
      process.core.eq_take_of_prefix call (List.take_prefix commits _)
    have saved_eq := pacemaker_take sound.mirrors.pacemaker call count
    simp only [Remembers, step, store_recover, ConsensusDatabase.load, localVoteChoice_recover,
      (identity_recover _ _).1, written_eq, saved_eq]
    rcases sound.remembers vote mem with outdated | ⟨-, logged⟩
    · exact .inl (outdated.trans_le (atMost_savedWithin sound.saved call count).currentRound)
    · by_cases dropped : Prunes (process.core.observed call) vote.round ∧
          commitsBefore call + 4 ≤ count
      · obtain ⟨⟨qc, observes, precommit, older⟩, late⟩ := dropped
        left
        by_cases early : count < commitsBefore call + 6
        · exact (safe qc observes precommit late early vote mem older).trans_le
            (atMost_savedWithin sound.saved call count).currentRound
        · -- The moved pacemaker was saved as well.
          have moved := lt_currentRound_afterQc process.core.pacemaker observes
          have only := (process.core.observed_eq_none_or call).resolve_left
            (by rw [Option.mem_def.mp observes]; exact Option.some_ne_none _)
          rw [savedWithin, if_neg (by simp [Option.mem_def.mp observes, only, qcCommits, tcCommits,
            precommit, not_lt.mp early]), pacemaker_perform, only]
          exact (Nat.succ_lt_succ older).trans_le moved
      · have kept := voteLog_take call count logged
          (fun made logs same => sound.blockHash_of_logged own logs mem same) dropped
        exact .inr ⟨kept, kept⟩
  agree := sound.agree

/-- A validator whose stops are all safe never returns two votes of a slot for different blocks. -/
theorem noEquivocation_of_stopsSafely (chainId epochId : ℕ) {localValidatorId : String}
    {validatorSet : ValidatorSet} (member : validatorSet.contains localValidatorId = true)
    (events : List (ProcessEvent H))
    (own : Runs.Along step OwnEmitted
      (initial (fresh chainId epochId localValidatorId validatorSet member)) events)
    (safe : Runs.Along step StopsSafely
      (initial (fresh chainId epochId localValidatorId validatorSet member)) events) :
    (events.foldl step
      (initial (fresh chainId epochId localValidatorId validatorSet member))).NoEquivocation := by
  have kept : ∀ (process : Process H) event, process.Sound →
      process.OwnEmitted event ∧ process.StopsSafely event → (process.step event).Sound := by
    rintro process event sound ⟨own, safe⟩
    cases event with
    | call call => exact sound.step_call own
    | stop call commits => exact sound.step_stop own safe
  exact ((own.and safe).invariant kept (sound_initial chainId epochId member)).agree

/-! ### A stop between pruning the votes and saving the round -/

open Checks CoreSystem SymbolicDigest

/-- The lone validator votes, stops while it adopts a later precommit certificate, and is asked for
a vote in the first round again. -/
def stoppedEvents : List (ProcessEvent SymbolicDigest) :=
  [.call (.makeVote (loneProposal Nat.one_pos (filled 1)) none .prepare),
    .stop (.observeQc (some (loneQc Nat.two_pos (filled 1) .precommit))) 4,
    .call (.makeVote (loneProposal Nat.one_pos (filled 2)) none .prepare)]

/-- It then votes for another block. -/
theorem not_noEquivocation_stopped :
    let start := initial (fresh 1 0 "a" loneSet loneSet_contains)
    Runs.Along step OwnEmitted start stoppedEvents ∧
      ¬ (stoppedEvents.foldl step start).NoEquivocation := by
  intro start
  have own : Runs.Along step OwnEmitted start stoppedEvents :=
    ⟨by rintro _ ⟨⟩, by rintro _ ⟨⟩, by rintro _ ⟨⟩, trivial⟩
  refine ⟨own, fun agree => ?_⟩
  let request (block : SymbolicDigest) : Call SymbolicDigest :=
    .makeVote (loneProposal one_pos block) none .prepare
  let lock : Call SymbolicDigest :=
    .observeQc (some (loneQc Nat.two_pos (filled 1) .precommit))
  let stopped := (start.step (.call (request (filled 1)))).step (.stop lock 4)
  have one_le : 1 ≤ maxColumnInteger := by decide
  have fits : ∀ core : ConsensusCore SymbolicDigest, ∀ block,
      (core.localVote (loneProposal one_pos block) .prepare).record.Fits :=
    fun _ _ => ⟨one_le, one_le⟩
  have prunable : ¬ Unprunable (none : Option (QC SymbolicDigest)) := nofun
  have first : start.core.emittedStored (request (filled 1)) =
      some (start.core.localVote (loneProposal one_pos (filled 1)) .prepare) := by
    refine emittedStored_makeVote.mpr ⟨Session.emitted_makeVote.mpr
      ⟨⟨checkProposal_eq_ok.mpr ?_, forall_mem_none _⟩, rfl⟩, prunable, fits _ _⟩
    exact ⟨⟨rfl, rfl⟩, rfl, rfl, Nat.le_succ 1, forall_mem_none _, fun _ _ => forall_mem_none _⟩
  have sound : (start.step (.call (request (filled 1)))).Sound :=
    (sound_initial 1 0 loneSet_contains).step_call own.1
  have small : ¬ Unprunable (some (loneQc Nat.two_pos (filled 1) .precommit)) := by
    rintro ⟨qc, observes, -, large⟩
    obtain rfl := Option.some.inj observes
    exact absurd large (by decide)
  have db_eq : stopped.db = (start.step (.call (request (filled 1)))).db.applyAll
      (((start.step (.call (request (filled 1)))).core.commits lock).take 4) := by
    have all := transactions_of_fits (start.step (.call (request (filled 1)))).core lock
      (fits_of_mem_observeQcCommits small)
    exact congrArg (fun transactions => ConsensusDatabase.applyAll _ (transactions.take 4)) all
  have pacemaker_eq : stopped.core.pacemaker = start.core.pacemaker := by
    have moved := pacemaker_performStored start.core (request (filled 1))
    have taken := pacemaker_take sound.mirrors.pacemaker lock 4
    rw [savedWithin, if_pos (.inr (by decide)), ← db_eq] at taken
    refine (pacemaker_recover _ _).trans (taken.trans ?_)
    rcases start.core.saved_performStored_or (request (filled 1)) with saves | kept
    · exact Eq.trans saves moved
    · exact kept
  have forgotten : stopped.core.localVoteChoice.get? (1, 1, .prepare) = none := by
    apply (localVoteChoice_recover _ stopped.db 1 1 .prepare).trans
    rw [db_eq]
    exact OrderedDict.get?_filterKeys _ _ _
  have second : stopped.core.emittedStored (request (filled 2)) =
      some (stopped.core.localVote (loneProposal one_pos (filled 2)) .prepare) := by
    obtain ⟨-, set_eq, chain_eq, epoch_eq⟩ := identity_performStored start.core (request (filled 1))
    obtain ⟨-, set_kept, chain_kept, epoch_kept⟩ :=
      (start.step (.call (request (filled 1)))).core.identity_recover stopped.db
    have stopped_set : stopped.core.validatorSet = loneSet := set_kept.trans set_eq
    refine emittedStored_makeVote.mpr ⟨Session.emitted_makeVote.mpr
      ⟨⟨checkProposal_eq_ok.mpr ⟨⟨?_, ?_⟩, ?_, ?_, ?_, forall_mem_none _, ?_⟩, ?_⟩, rfl⟩,
        prunable, fits _ _⟩
    · exact (chain_kept.trans chain_eq).symm
    · exact (epoch_kept.trans epoch_eq).symm
    · exact congrArg (ValidatorSet.validatorSetHash (H := SymbolicDigest)) stopped_set.symm
    · exact (congrArg (ValidatorSet.contains · "a") stopped_set).trans loneSet_contains
    · exact (congrArg PacemakerState.currentRound pacemaker_eq).trans_le (Nat.le_succ 1)
    · exact fun _ _ => forall_mem_none _
    · intro existing chosen
      cases forgotten.symm.trans chosen
  have left_mem : start.core.localVote (loneProposal one_pos (filled 1)) .prepare ∈
      (stoppedEvents.foldl step start).votes :=
    List.mem_append_left _ (List.mem_append_right _ (Option.mem_toList.mpr first))
  have right_mem : stopped.core.localVote (loneProposal one_pos (filled 2)) .prepare ∈
      (stoppedEvents.foldl step start).votes :=
    List.mem_append_right _ (Option.mem_toList.mpr second)
  cases agree _ left_mem _ right_mem rfl rfl rfl

/-- A certificate whose round does not fit raises, and stopping before the vote log is pruned for
another one is safe. -/
theorem noEquivocation_stopped_early :
    (([.call (.makeVote (loneProposal one_pos (filled 1)) none .prepare),
        .call (.observeQc (some (loneQc (Nat.succ_pos maxColumnInteger) (filled 1) .precommit))),
        .stop (.observeQc (some (loneQc Nat.two_pos (filled 1) .precommit))) 3,
        .call (.makeVote (loneProposal one_pos (filled 2)) none .prepare)] :
      List (ProcessEvent SymbolicDigest)).foldl step
        (initial (fresh 1 0 "a" loneSet loneSet_contains))).NoEquivocation := by
  refine noEquivocation_of_stopsSafely 1 0 loneSet_contains _
    ⟨nofun, nofun, nofun, nofun, trivial⟩ ⟨trivial, trivial, ?_, trivial, trivial⟩
  intro qc observes precommit late
  exact absurd (late.trans (List.length_take_le _ _)) (by simp [commitsBefore])

end Process

end EZChain
