import EZChain.Consensus.Restart

/-!
# The consensus database

A core writes its store to a database in a sequence of commits.  After all commits of a call the
tables hold the store of the core; after a part of them they hold whatever was committed.
-/

namespace EZChain

variable {H : Type}

/-- The row of `consensus_runtime_state`. -/
structure RuntimeState (H : Type) where
  /-- The saved pacemaker. -/
  pacemaker : PacemakerState
  /-- Hash of the highest certificate, a key of the certificate table. -/
  highestQcHash : Option H
  /-- Hash of the locked certificate, a key of the certificate table. -/
  lockedQcHash : Option H

/-- The tables of `SQLiteConsensusStore`. -/
structure ConsensusDatabase (H : Type) where
  /-- The only row of the runtime table. -/
  runtimeState : Option (RuntimeState H)
  /-- Proposals by block hash. -/
  proposals : OrderedDict H (Proposal H)
  /-- Certificates by their hash. -/
  qcs : OrderedDict H (QC H)
  /-- Timeout certificates by their hash. -/
  tcs : OrderedDict H (TC H)
  /-- The blocks that validators voted for, by height, round, phase and voter. -/
  voteLog : OrderedDict (ℕ × ℕ × VotePhase × String) H
  /-- The reports of timeout votes, by height, round and voter. -/
  timeoutLog : OrderedDict (ℕ × ℕ × String) (HighQc H)

/-- A transaction on the database. -/
inductive Commit (H : Type) where
  | proposal (hash : H) (proposal : Proposal H)
  | qc (hash : H) (qc : QC H)
  | tc (hash : H) (tc : TC H)
  | runtimeState (state : RuntimeState H)
  | voteRecord (height round : ℕ) (phase : VotePhase) (voterId : String) (blockHash : H)
  | pruneVoteLog (keepRound : ℕ)
  | timeoutRecord (height round : ℕ) (voterId : String) (highQc : HighQc H)
  | pruneTimeoutLog (keepRound : ℕ)

/-- `_find_hash_for_value`. -/
def findHashForValue {ν : Type} [DecidableEq ν] (items : OrderedDict H ν) (target : ν) : Option H :=
  (items.entries.find? fun item => item.2 = target).map Prod.fst

namespace ConsensusDatabase

/-- A database without rows. -/
def empty (H : Type) : ConsensusDatabase H := ⟨none, ∅, ∅, ∅, ∅, ∅⟩

variable [DecidableEq H]

def apply (db : ConsensusDatabase H) : Commit H → ConsensusDatabase H
  | .proposal hash proposal => { db with proposals := db.proposals.set hash proposal }
  | .qc hash qc => { db with qcs := db.qcs.set hash qc }
  | .tc hash tc => { db with tcs := db.tcs.set hash tc }
  | .runtimeState state => { db with runtimeState := some state }
  | .voteRecord height round phase voterId blockHash =>
      { db with voteLog := db.voteLog.set (height, round, phase, voterId) blockHash }
  | .pruneVoteLog keepRound =>
      { db with voteLog := db.voteLog.filterKeys fun key => keepRound ≤ key.2.1 }
  | .timeoutRecord height round voterId highQc =>
      { db with timeoutLog := db.timeoutLog.set (height, round, voterId) highQc }
  | .pruneTimeoutLog keepRound =>
      { db with timeoutLog := db.timeoutLog.filterKeys fun key => keepRound ≤ key.2.1 }

/-- The database after commits in the given order. -/
def applyAll (db : ConsensusDatabase H) (commits : List (Commit H)) : ConsensusDatabase H :=
  commits.foldl apply db

/-- The row of the runtime state, or the initial one. -/
def row (db : ConsensusDatabase H) : RuntimeState H := db.runtimeState.getD ⟨{}, none, none⟩

/-- `_load_into_memory`, with the logs that are read from their tables. -/
def load (db : ConsensusDatabase H) : ConsensusStore H where
  proposals := db.proposals
  qcs := db.qcs
  tcs := db.tcs
  highestQc := db.row.highestQcHash.bind db.qcs.get?
  lockedQc := db.row.lockedQcHash.bind db.qcs.get?
  pacemakerState := db.row.pacemaker
  voteLog := db.voteLog
  timeoutLog := db.timeoutLog

@[simp]
theorem applyAll_nil (db : ConsensusDatabase H) : db.applyAll [] = db := rfl

@[simp]
theorem applyAll_cons (db : ConsensusDatabase H) (commit : Commit H) (rest : List (Commit H)) :
    db.applyAll (commit :: rest) = (db.apply commit).applyAll rest := rfl

theorem applyAll_append (db : ConsensusDatabase H) (left right : List (Commit H)) :
    db.applyAll (left ++ right) = (db.applyAll left).applyAll right :=
  List.foldl_append

end ConsensusDatabase

/-! ## The commits of the store -/

namespace ConsensusStore

variable [DecidableEq H]

/-- The row that `_persist_runtime_state` writes. -/
def runtimeState (store : ConsensusStore H) : RuntimeState H where
  pacemaker := store.pacemakerState
  highestQcHash := store.highestQc.bind (findHashForValue store.qcs)
  lockedQcHash := store.lockedQc.bind (findHashForValue store.qcs)

def saveQcCommits (store : ConsensusStore H) (hash : H) (qc : QC H) : List (Commit H) :=
  [.qc hash qc, .runtimeState (store.saveQc hash qc).runtimeState]

def saveTcCommits (store : ConsensusStore H) (hash : H) (tc : TC H) : List (Commit H) :=
  [.tc hash tc, .runtimeState (store.saveTc hash tc).runtimeState]

def updateLockedQcCommits (store : ConsensusStore H) (qc : QC H) : List (Commit H) :=
  [.runtimeState (store.updateLockedQc qc).runtimeState]

def savePacemakerStateCommits (store : ConsensusStore H) (state : PacemakerState) :
    List (Commit H) :=
  [.runtimeState (store.savePacemakerState state).runtimeState]

end ConsensusStore

/-! ## The commits of a call -/

namespace ConsensusCore

variable [DecidableEq H] [Crypto H]

def observeQcCommits (core : ConsensusCore H) : Option (QC H) → List (Commit H)
  | none => []
  | some qc =>
      let saved := core.store.saveQc (qcHash qc) qc
      core.store.saveQcCommits (qcHash qc) qc ++
        if qc.phase = .precommit then
          let locked := saved.updateLockedQc qc
          saved.updateLockedQcCommits qc ++ [.pruneVoteLog qc.round, .pruneTimeoutLog qc.round] ++
            ((locked.pruneVoteLog qc.round).pruneTimeoutLog qc.round).savePacemakerStateCommits
              (core.observeQc (some qc)).pacemaker
        else
          saved.savePacemakerStateCommits (core.observeQc (some qc)).pacemaker

def observeTcCommits (core : ConsensusCore H) : Option (TC H) → List (Commit H)
  | none => []
  | some tc =>
      core.store.saveTcCommits (tcHash tc) tc ++
        (core.store.saveTc (tcHash tc) tc).savePacemakerStateCommits
          (core.observeTc (some tc)).pacemaker

def validateProposalCommits (core : ConsensusCore H) (proposal : Proposal H)
    (justifyQc : Option (QC H)) : List (Commit H) :=
  core.observeQcCommits justifyQc ++
    match (core.observeQc justifyQc).checkProposal proposal justifyQc with
    | .error _ => []
    | .ok () => [.proposal (proposalHash proposal) proposal]

/-- The commits of a call, in order. -/
def commits (core : ConsensusCore H) : Call H → List (Commit H)
  | .observeQc qc => core.observeQcCommits qc
  | .observeTc tc => core.observeTcCommits tc
  | .validateProposal proposal justifyQc => core.validateProposalCommits proposal justifyQc
  | .makeVote proposal justifyQc phase =>
      core.validateProposalCommits proposal justifyQc ++
        match (core.makeVote proposal justifyQc phase).1 with
        | .error _ => []
        | .ok vote =>
            [.voteRecord vote.height vote.round vote.phase vote.voterId vote.blockHash]
  | .acceptVote vote =>
      match core.voteCollector.addVote vote core.validatorSet with
      | .error _ => []
      | .ok (qc, collector) =>
          let counted :=
            { core with
              voteCollector := collector
              store := core.store.saveVoteRecord vote.height vote.round vote.phase vote.voterId
                vote.blockHash }
          .voteRecord vote.height vote.round vote.phase vote.voterId vote.blockHash ::
            counted.observeQcCommits qc
  | .makeTimeoutVote height round =>
      match (core.makeTimeoutVote height round).1 with
      | .error _ => []
      | .ok vote =>
          [.timeoutRecord vote.height vote.round vote.voterId (vote.highQcRound, vote.highQcHash)]
  | .acceptTimeoutVote timeoutVote =>
      match core.timeoutVoteCollector.addTimeoutVote timeoutVote core.validatorSet with
      | .error _ => []
      | .ok (tc, collector) =>
          let counted :=
            { core with
              timeoutVoteCollector := collector
              store := core.store.saveTimeoutRecord timeoutVote.height timeoutVote.round
                timeoutVote.voterId (timeoutVote.highQcRound, timeoutVote.highQcHash) }
          .timeoutRecord timeoutVote.height timeoutVote.round timeoutVote.voterId
              (timeoutVote.highQcRound, timeoutVote.highQcHash) ::
            counted.observeTcCommits tc

end ConsensusCore

/-! ## The tables mirror the store -/

/-- The tables hold the pacemaker, the records and the logs of the store. -/
structure ConsensusDatabase.Mirrors [DecidableEq H] (db : ConsensusDatabase H)
    (store : ConsensusStore H) : Prop where
  pacemaker : db.row.pacemaker = store.pacemakerState
  proposals : db.proposals = store.proposals
  qcs : db.qcs = store.qcs
  tcs : db.tcs = store.tcs
  voteLog : db.voteLog = store.voteLog
  timeoutLog : db.timeoutLog = store.timeoutLog

namespace ConsensusDatabase

open ConsensusCore

variable [DecidableEq H] [Crypto H]

theorem Mirrors.observeQc {core : ConsensusCore H} {db : ConsensusDatabase H}
    (mirrors : db.Mirrors core.store) (qc : Option (QC H)) :
    (db.applyAll (core.observeQcCommits qc)).Mirrors (core.observeQc qc).store := by
  cases qc with
  | none => exact mirrors
  | some qc =>
      by_cases precommit : qc.phase = .precommit
      · simp only [observeQcCommits, ConsensusCore.observeQc, precommit, if_true]
        exact
          { pacemaker := rfl
            proposals := mirrors.proposals
            qcs := congrArg (OrderedDict.set · _ _) mirrors.qcs
            tcs := mirrors.tcs
            voteLog := congrArg (fun log => log.filterKeys fun key => qc.round ≤ key.2.1)
              mirrors.voteLog
            timeoutLog := congrArg (fun log => log.filterKeys fun key => qc.round ≤ key.2.1)
              mirrors.timeoutLog }
      · simp only [observeQcCommits, ConsensusCore.observeQc, precommit, if_false]
        exact
          { pacemaker := rfl
            proposals := mirrors.proposals
            qcs := congrArg (OrderedDict.set · _ _) mirrors.qcs
            tcs := mirrors.tcs
            voteLog := mirrors.voteLog
            timeoutLog := mirrors.timeoutLog }

theorem Mirrors.observeTc {core : ConsensusCore H} {db : ConsensusDatabase H}
    (mirrors : db.Mirrors core.store) (tc : Option (TC H)) :
    (db.applyAll (core.observeTcCommits tc)).Mirrors (core.observeTc tc).store := by
  cases tc with
  | none => exact mirrors
  | some tc =>
      exact
        { pacemaker := rfl
          proposals := mirrors.proposals
          qcs := mirrors.qcs
          tcs := congrArg (OrderedDict.set · _ _) mirrors.tcs
          voteLog := mirrors.voteLog
          timeoutLog := mirrors.timeoutLog }

theorem Mirrors.validateProposal {core : ConsensusCore H} {db : ConsensusDatabase H}
    (mirrors : db.Mirrors core.store) (proposal : Proposal H) (justifyQc : Option (QC H)) :
    (db.applyAll (core.validateProposalCommits proposal justifyQc)).Mirrors
      (core.validateProposal proposal justifyQc).2.store := by
  have observed := Mirrors.observeQc mirrors justifyQc
  rw [validateProposalCommits, applyAll_append, ConsensusCore.validateProposal]
  cases (core.observeQc justifyQc).checkProposal proposal justifyQc with
  | error message => exact observed
  | ok done =>
      exact
        { pacemaker := observed.pacemaker
          proposals := congrArg (OrderedDict.set · _ _) observed.proposals
          qcs := observed.qcs
          tcs := observed.tcs
          voteLog := observed.voteLog
          timeoutLog := observed.timeoutLog }

/-- After all commits of a call the tables mirror the store of the core. -/
theorem Mirrors.perform {core : ConsensusCore H} {db : ConsensusDatabase H}
    (mirrors : db.Mirrors core.store) (call : Call H) :
    (db.applyAll (core.commits call)).Mirrors (core.perform call).store := by
  cases call with
  | observeQc qc => exact Mirrors.observeQc mirrors qc
  | observeTc tc => exact Mirrors.observeTc mirrors tc
  | validateProposal proposal justifyQc => exact Mirrors.validateProposal mirrors proposal justifyQc
  | makeVote proposal justifyQc phase =>
      have validated := Mirrors.validateProposal mirrors proposal justifyQc
      simp only [commits, applyAll_append, ConsensusCore.perform, makeVote_snd, emitted]
      cases (core.makeVote proposal justifyQc phase).1 with
      | error message => exact validated
      | ok vote =>
          exact
            { pacemaker := validated.pacemaker
              proposals := validated.proposals
              qcs := validated.qcs
              tcs := validated.tcs
              voteLog := congrArg (OrderedDict.set · _ _) validated.voteLog
              timeoutLog := validated.timeoutLog }
  | acceptVote vote =>
      simp only [commits, ConsensusCore.perform, acceptVote]
      cases core.voteCollector.addVote vote core.validatorSet with
      | error message => exact mirrors
      | ok result =>
          refine Mirrors.observeQc ?_ _
          exact
            { pacemaker := mirrors.pacemaker
              proposals := mirrors.proposals
              qcs := mirrors.qcs
              tcs := mirrors.tcs
              voteLog := congrArg (OrderedDict.set · _ _) mirrors.voteLog
              timeoutLog := mirrors.timeoutLog }
  | makeTimeoutVote height round =>
      simp only [commits, ConsensusCore.perform, makeTimeoutVote]
      split_ifs
      · exact mirrors
      · exact
          { pacemaker := mirrors.pacemaker
            proposals := mirrors.proposals
            qcs := mirrors.qcs
            tcs := mirrors.tcs
            voteLog := mirrors.voteLog
            timeoutLog := congrArg (OrderedDict.set · _ _) mirrors.timeoutLog }
      · exact mirrors
  | acceptTimeoutVote timeoutVote =>
      simp only [commits, ConsensusCore.perform, acceptTimeoutVote]
      cases core.timeoutVoteCollector.addTimeoutVote timeoutVote core.validatorSet with
      | error message => exact mirrors
      | ok result =>
          refine Mirrors.observeTc ?_ _
          exact
            { pacemaker := mirrors.pacemaker
              proposals := mirrors.proposals
              qcs := mirrors.qcs
              tcs := mirrors.tcs
              voteLog := mirrors.voteLog
              timeoutLog := congrArg (OrderedDict.set · _ _) mirrors.timeoutLog }

end ConsensusDatabase

/-! ## Loading the certificates -/

/-- Different certificates have different hashes. -/
theorem qcHash_injective [Crypto H] (ideal : IdealSha256 H) :
    Function.Injective (qcHash : QC H → H) := by
  intro left right equality
  have chunks_eq := ideal equality
  simp only [List.cons.injEq, Chunk.encoded.injEq, QC.canonicalize, Signers.canonicalize,
    Canon.dict.injEq, Prod.mk.injEq, Canon.int.injEq, Int.natCast_inj, Canon.str.injEq,
    Canon.digest.injEq, Canon.list.injEq, true_and, and_true] at chunks_eq
  obtain ⟨chain, epoch, height, round, phase, set, block, signers⟩ := chunks_eq
  have phase_eq := VotePhase.value_injective phase
  have ids_eq := List.map_injective_iff.mpr (fun _ _ => Canon.str.inj) signers
  rcases left with ⟨_, _, _, _, _, _, _, ⟨_, _, _, _⟩, _, _⟩
  rcases right with ⟨_, _, _, _, _, _, _, ⟨_, _, _, _⟩, _, _⟩
  simp_all

end EZChain
