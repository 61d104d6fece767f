import EZChain.Consensus.Collectors

/-!
# Pacemaker and consensus store

The pacemaker remembers the highest rounds that were certified, locked, timed out and decided.
The store holds the certificates a validator has seen, its highest and its locked certificate, and
the logs from which the collectors are rebuilt.
-/

namespace EZChain

/-! ## Pacemaker -/

theorem default_timeout_pos : (0 : ℕ) < 1000 := by decide

theorem default_timeout_le : (1000 : ℕ) ≤ 16000 := by decide

/-- `PacemakerState`, with the defaults of the source. -/
structure PacemakerState where
  /-- The round that the core is in. -/
  currentRound : ℕ := 1
  /-- Round of the highest certificate. -/
  highestQcRound : ℕ := 0
  /-- Round of the lock. -/
  lockedQcRound : ℕ := 0
  /-- Round of the highest timeout certificate. -/
  highestTcRound : ℕ := 0
  /-- Round of the last commit certificate. -/
  lastDecidedRound : ℕ := 0
  /-- Timeouts since the last progress. -/
  consecutiveLocalTimeouts : ℕ := 0
  baseTimeoutMs : ℕ := 1000
  maxTimeoutMs : ℕ := 16000
  currentRound_pos : 0 < currentRound := by exact Nat.one_pos
  baseTimeoutMs_pos : 0 < baseTimeoutMs := by exact default_timeout_pos
  base_le_max : baseTimeoutMs ≤ maxTimeoutMs := by exact default_timeout_le

namespace PacemakerState

/-- A certificate was seen; the lock moves when a lock round is given. -/
def noteQc (state : PacemakerState) (qcRound : ℕ) (lockRound : Option ℕ) : PacemakerState :=
  { state with
    currentRound := max state.currentRound (qcRound + 1)
    highestQcRound := max state.highestQcRound qcRound
    lockedQcRound := lockRound.elim state.lockedQcRound (max state.lockedQcRound)
    consecutiveLocalTimeouts := 0
    currentRound_pos := lt_max_of_lt_left state.currentRound_pos }

def noteTc (state : PacemakerState) (tcRound : ℕ) : PacemakerState :=
  { state with
    currentRound := max state.currentRound (tcRound + 1)
    highestTcRound := max state.highestTcRound tcRound
    consecutiveLocalTimeouts := 0
    currentRound_pos := lt_max_of_lt_left state.currentRound_pos }

def noteDecide (state : PacemakerState) (decidedRound : ℕ) : PacemakerState :=
  { state with
    lastDecidedRound := max state.lastDecidedRound decidedRound
    consecutiveLocalTimeouts := 0 }

end PacemakerState

/-! ## Store -/

/-- `InMemoryConsensusStore`. -/
structure ConsensusStore (H : Type) where
  proposals : OrderedDict H (Proposal H)
  qcs : OrderedDict H (QC H)
  tcs : OrderedDict H (TC H)
  /-- The certificate of the highest round. -/
  highestQc : Option (QC H)
  /-- The precommit certificate of the highest round. -/
  lockedQc : Option (QC H)
  /-- The saved pacemaker. -/
  pacemakerState : PacemakerState
  /-- The blocks that validators voted for, by height, round, phase and voter. -/
  voteLog : OrderedDict (ℕ × ℕ × VotePhase × String) H
  /-- The reports of timeout votes, by height, round and voter. -/
  timeoutLog : OrderedDict (ℕ × ℕ × String) (HighQc H)

namespace ConsensusStore

variable {H : Type}

/-- A store without records. -/
def empty (H : Type) : ConsensusStore H := ⟨∅, ∅, ∅, none, none, {}, ∅, ∅⟩

/-- `_is_higher_qc`: later rounds first, then later phases. -/
def isHigherQc (candidate current : QC H) : Bool :=
  if candidate.round ≠ current.round then
    current.round < candidate.round
  else
    current.phase.rank < candidate.phase.rank

/-- Move the lock to a certificate of the same or a later round. -/
def updateLockedQc (store : ConsensusStore H) (qc : QC H) : ConsensusStore H :=
  { store with
    lockedQc :=
      if ∀ locked ∈ store.lockedQc, locked.round ≤ qc.round then some qc else store.lockedQc }

def savePacemakerState (store : ConsensusStore H) (state : PacemakerState) : ConsensusStore H :=
  { store with pacemakerState := state }

def saveVoteRecord (store : ConsensusStore H) (height round : ℕ) (phase : VotePhase)
    (voterId : String) (blockHash : H) : ConsensusStore H :=
  { store with voteLog := store.voteLog.set (height, round, phase, voterId) blockHash }

/-- Drop the votes of rounds before the given one. -/
def pruneVoteLog (store : ConsensusStore H) (keepRound : ℕ) : ConsensusStore H :=
  { store with voteLog := store.voteLog.filterKeys fun key => keepRound ≤ key.2.1 }

def saveTimeoutRecord (store : ConsensusStore H) (height round : ℕ) (voterId : String)
    (highQc : HighQc H) : ConsensusStore H :=
  { store with timeoutLog := store.timeoutLog.set (height, round, voterId) highQc }

/-- Drop the timeout votes of rounds before the given one. -/
def pruneTimeoutLog (store : ConsensusStore H) (keepRound : ℕ) : ConsensusStore H :=
  { store with timeoutLog := store.timeoutLog.filterKeys fun key => keepRound ≤ key.2.1 }

variable [DecidableEq H]

def saveProposal (store : ConsensusStore H) (hash : H) (proposal : Proposal H) :
    ConsensusStore H :=
  { store with proposals := store.proposals.set hash proposal }

def saveQc (store : ConsensusStore H) (hash : H) (qc : QC H) : ConsensusStore H :=
  { store with
    qcs := store.qcs.set hash qc
    highestQc :=
      match store.highestQc with
      | none => some qc
      | some highest => if isHigherQc qc highest then some qc else some highest }

def saveTc (store : ConsensusStore H) (hash : H) (tc : TC H) : ConsensusStore H :=
  { store with tcs := store.tcs.set hash tc }

end ConsensusStore

end EZChain
