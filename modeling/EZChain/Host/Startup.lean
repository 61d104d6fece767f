import EZChain.Consensus.Recovery
import EZChain.Host.Certified

/-!
# Starting a host again

A host handles envelopes and drives its core, and its process may stop after any commit of the
core.  The check at start-up compares the certificates of the core that is built again with its
pacemaker, and the commits between them leave the pacemaker behind.
-/

namespace EZChain

open Checks ConsensusCore

variable {H : Type}

/-- What a host does: it handles an envelope, or calls its core as a leader. -/
inductive HostAction (H : Type) where
  | envelope (envelope : ConsensusHost.Envelope H)
  | call (call : Call H)

/-- What happens to a host. -/
inductive HostEvent (H : Type) where
  /-- An action that returns or raises. -/
  | action (action : HostAction H)
  /-- The process stops after some commits of the core in an action and the host starts again. -/
  | stop (action : HostAction H) (commits : ℕ)

/-- The action of an event. -/
def HostEvent.cause : HostEvent H → HostAction H
  | .action cause | .stop cause _ => cause

/-- A host with the database of its core. -/
structure HostProcess (H : Type) where
  /-- The running host. -/
  host : ConsensusHost H
  /-- The database on disk. -/
  db : ConsensusDatabase H

/-! ## Pacemaker and certificates -/

namespace PacemakerState

/-- The rounds of a pacemaker fit a highest certificate and a lock. -/
structure Fits (state : PacemakerState) (highest locked : Option (QC H)) : Prop where
  ahead : roundOf highest < state.currentRound
  timeout : state.highestTcRound < state.currentRound
  locked_le : roundOf locked ≤ roundOf highest
  decided_le : state.lastDecidedRound ≤ roundOf highest

variable {state : PacemakerState} {highest locked : Option (QC H)}

theorem Fits.afterQc (fits : state.Fits highest locked) (qc : Option (QC H)) :
    (state.afterQc qc).Fits (highestAfter highest qc) (lockAfter locked qc) := by
  cases qc with
  | none => exact fits
  | some qc =>
      obtain ⟨current, -, timeout, -, decided⟩ := afterQc_some state qc
      obtain ⟨ahead, timeout_lt, locked_le, decided_le⟩ := fits
      constructor
      · rw [roundOf_highestAfter, current]
        omega
      · rw [timeout, current]
        omega
      · rw [roundOf_lockAfter, roundOf_highestAfter]
        split_ifs <;> omega
      · rw [decided, roundOf_highestAfter]
        split_ifs <;> omega

theorem Fits.afterTc (fits : state.Fits highest locked) (tc : Option (TC H)) :
    (state.afterTc tc).Fits highest locked := by
  cases tc with
  | none => exact fits
  | some tc =>
      constructor
      · exact lt_max_of_lt_left fits.ahead
      · exact max_lt (lt_max_of_lt_left fits.timeout) (lt_max_of_lt_right (Nat.lt_succ_self _))
      · exact fits.locked_le
      · exact fits.decided_le

/-- A pacemaker that is ahead of a certificate fits it before it is moved. -/
theorem Fits.within (fits : state.Fits highest locked) {qc : QC H}
    (behind : qc.round < state.currentRound) {next : Option (QC H)}
    (next_eq : next = locked ∨ next = lockAfter locked (some qc)) :
    state.Fits (highestAfter highest (some qc)) next := by
  obtain ⟨ahead, timeout, locked_le, decided_le⟩ := fits
  constructor
  · rw [roundOf_highestAfter]
    omega
  · exact timeout
  · rw [roundOf_highestAfter]
    rcases next_eq with rfl | rfl
    · omega
    · rw [roundOf_lockAfter]
      split_ifs <;> omega
  · rw [roundOf_highestAfter]
    omega

end PacemakerState

variable [DecidableEq H] [Crypto H]

/-- The database is that of the core, and the pacemakers in memory and in the database fit the
certificates. -/
structure ConsensusCore.Steady (core : ConsensusCore H) (db : ConsensusDatabase H) : Prop where
  mirrors : db.Mirrors core.store
  filed : db.Filed
  loads : db.Loads core.store
  fits : core.pacemaker.Fits core.highestQc core.lockedQc
  saved : core.store.pacemakerState.Fits core.highestQc core.lockedQc

/-- A certificate that part of a call has saved without the moved pacemaker is one that the saved
pacemaker was ahead of. -/
def ConsensusCore.LeavesBehind (core : ConsensusCore H) (call : Call H) (count : ℕ) : Prop :=
  ∀ qc ∈ core.observed call, commitsBefore call + 2 ≤ count →
    count < commitsBefore call + qcCommits (some qc) →
      qc.round < core.store.pacemakerState.currentRound

namespace ConsensusCore

variable {core : ConsensusCore H} {db : ConsensusDatabase H}

theorem steady_fresh (chainId epochId : ℕ) {localValidatorId : String}
    {validatorSet : ValidatorSet} (member : validatorSet.contains localValidatorId = true) :
    (fresh (H := H) chainId epochId localValidatorId validatorSet member).Steady (.empty H) where
  mirrors := ⟨rfl, rfl, rfl, rfl, rfl, rfl⟩
  filed := ⟨nofun, nofun, nofun⟩
  loads := ⟨rfl, rfl, rfl⟩
  fits := ⟨one_pos, one_pos, le_rfl, le_rfl⟩
  saved := ⟨one_pos, one_pos, le_rfl, le_rfl⟩

theorem Steady.recover_take (ideal : IdealSha256 H) (steady : core.Steady db) (call : Call H)
    (count : ℕ) :
    let next := core.recover (db.applyAll ((core.commits call).take count))
    next.pacemaker = core.savedWithin call count ∧
      next.highestQc = core.highestWithin (core.observed call) (count - commitsBefore call) ∧
      next.lockedQc = core.lockedWithin (core.observed call) (count - commitsBefore call) := by
  have taken := loads_take ideal steady.filed steady.loads call count
  simp only [pacemaker_recover, highestQc_recover, lockedQc_recover]
  exact ⟨pacemaker_take steady.mirrors.pacemaker call count, taken.2⟩

/-- What a part of a call saves fits when the saved pacemaker was ahead of the certificate in case
it is not moved. -/
theorem Steady.fits_within (steady : core.Steady db) {call : Call H} {count : ℕ}
    (behind : core.LeavesBehind call count) :
    (core.savedWithin call count).Fits
      (core.highestWithin (core.observed call) (count - commitsBefore call))
      (core.lockedWithin (core.observed call) (count - commitsBefore call)) := by
  rw [savedWithin, pacemaker_perform]
  cases certificate : core.observed call with
  | none =>
      rw [highestWithin_none, lockedWithin_none]
      split
      · exact steady.saved
      · exact steady.fits.afterTc _
  | some qc =>
      have absent := (core.observed_eq_none_or call).resolve_left (by simp [certificate])
      have three : 3 ≤ qcCommits (some qc) := by
        simp only [qcCommits]
        split_ifs <;> omega
      simp only [absent, tcCommits, add_zero, highestWithin, lockedWithin, reduceCtorEq, false_and,
        false_or]
      by_cases first : count - commitsBefore call < 2
      · rw [if_pos (by omega), if_pos first, if_pos (by omega)]
        exact steady.saved
      · rw [if_neg first]
        by_cases early : count < commitsBefore call + qcCommits (some qc)
        · rw [if_pos early]
          apply steady.saved.within (behind qc certificate (by omega) early)
          split
          · exact .inl rfl
          · exact .inr rfl
        · rw [if_neg early, if_neg (by omega)]
          exact steady.fits.afterQc (some qc)

/-- A core that is built after a part of a call is steady. -/
theorem Steady.recover (ideal : IdealSha256 H) (steady : core.Steady db) {call : Call H}
    {count : ℕ} (behind : core.LeavesBehind call count) :
    (core.recover (db.applyAll ((core.commits call).take count))).Steady
      (db.applyAll ((core.commits call).take count)) := by
  obtain ⟨pacemaker_eq, highest_eq, locked_eq⟩ := steady.recover_take ideal call count
  have fits := steady.fits_within behind
  rw [← pacemaker_eq, ← highest_eq, ← locked_eq] at fits
  constructor
  case filed => exact (loads_take ideal steady.filed steady.loads call count).1
  case fits => exact fits
  case saved =>
    have saved := saved_recover core (db.applyAll ((core.commits call).take count))
    rw [saved]
    exact fits
  all_goals rw [store_recover]
  case mirrors => exact ⟨rfl, rfl, rfl, rfl, rfl, rfl⟩
  case loads => exact ⟨rfl, rfl, rfl⟩

/-- A core stays steady in a call, also in one that raises. -/
theorem Steady.performStored (ideal : IdealSha256 H) (steady : core.Steady db) {call : Call H}
    (behind : core.LeavesBehind call (core.transactions call).length) :
    (core.performStored call).Steady (db.applyAll (core.transactions call)) := by
  obtain ⟨filed, loads⟩ :=
    loads_performStored ideal steady.filed steady.mirrors steady.loads call
  have mirrors := core.mirrors_performStored call steady.mirrors
  have taken := steady.recover_take ideal call (core.transactions call).length
  have fits := steady.fits_within behind
  rw [← core.eq_take_of_prefix call (List.prefix_refl _)] at taken
  rw [← taken.1, ← taken.2.1, ← taken.2.2, pacemaker_recover, highestQc_recover,
    lockedQc_recover, mirrors.pacemaker, loads.highest, loads.locked] at fits
  refine ⟨mirrors, filed, loads, ?_, fits⟩
  rw [pacemaker_performStored, highestQc_performStored, lockedQc_performStored]
  exact (steady.fits.afterQc _).afterTc _

end ConsensusCore

namespace ConsensusHost

/-- The call of the core in an action. -/
def callOf (host : ConsensusHost H) : HostAction H → Option (Call H)
  | .envelope envelope => host.coreCall envelope
  | .call call => some call

/-- The host after an action: handlers do not catch `OverflowError`. -/
def act (host : ConsensusHost H) (action : HostAction H) : ConsensusHost H :=
  if ∃ call ∈ host.callOf action, host.core.Overflows call then
    { host with core := (host.callOf action).elim host.core host.core.performStored }
  else
    match action with
    | .envelope envelope => (host.handleEnvelope envelope).2
    | .call call => { host with core := host.core.perform call }

/-- The transactions of the core that go through in an action. -/
def transactionsOf (host : ConsensusHost H) (action : HostAction H) : List (Commit H) :=
  (host.callOf action).elim [] host.core.transactions

theorem core_act (host : ConsensusHost H) (action : HostAction H) :
    (host.act action).core = (host.callOf action).elim host.core host.core.performStored := by
  unfold act
  split
  · rfl
  next completes =>
    have performs : ∀ call ∈ host.callOf action,
        host.core.performStored call = host.core.perform call :=
      fun call acts => if_neg fun overflows => completes ⟨call, acts, overflows⟩
    cases action with
    | envelope envelope =>
        apply (core_handleEnvelope host envelope).trans
        rw [callOf] at performs ⊢
        cases acts : host.coreCall envelope with
        | none => rfl
        | some call => exact (performs call acts).symm
    | call call => exact (performs call rfl).symm

/-- The host with the core that is built from a database. -/
def startAgain (host : ConsensusHost H) (db : ConsensusDatabase H) : ConsensusHost H :=
  { host with core := host.core.recover db }

omit [DecidableEq H] [Crypto H] in
/-- What the check at start-up asks of the core. -/
theorem exists_validateRuntimeState {host : ConsensusHost H} :
    (∃ snapshot, host.validateRuntimeState = .ok snapshot) ↔
      roundOf host.core.highestQc < host.core.pacemaker.currentRound ∧
        host.core.pacemaker.highestTcRound < host.core.pacemaker.currentRound ∧
        ∀ highest ∈ host.core.highestQc, roundOf host.core.lockedQc ≤ highest.round ∧
          host.core.pacemaker.lastDecidedRound ≤ highest.round := by
  have positive := host.core.pacemaker.currentRound_pos
  simp only [validateRuntimeState, bind_eq_ok, require_eq_ok, exists_const, pure_eq_ok]
  simp only [runtimeSnapshot, highestQc, lockedQc]
  cases host.core.store.highestQc <;> cases host.core.store.lockedQc <;> simp [positive]

end ConsensusHost

namespace HostProcess

/-- A host with an empty database. -/
def initial (host : ConsensusHost H) : HostProcess H := ⟨host, .empty H⟩

/-- The transactions that go through in an event. -/
def written (process : HostProcess H) : HostEvent H → List (Commit H)
  | .action action => process.host.transactionsOf action
  | .stop action commits => (process.host.transactionsOf action).take commits

def step (process : HostProcess H) (event : HostEvent H) : HostProcess H :=
  let db := process.db.applyAll (process.written event)
  match event with
  | .action action => { host := process.host.act action, db := db }
  | .stop _ _ => { host := process.host.startAgain db, db := db }

/-- The host that is started again passes its check. -/
def Restartable (process : HostProcess H) : Prop :=
  ∃ snapshot, (process.host.startAgain process.db).validateRuntimeState = .ok snapshot

/-- When the process stops or raises after a certificate was saved as the highest one and before the
moved pacemaker is saved, the saved pacemaker was ahead of the certificate before. -/
def StopsBehind (process : HostProcess H) (event : HostEvent H) : Prop :=
  ∀ call ∈ process.host.callOf event.cause,
    process.host.core.LeavesBehind call (process.written event).length

/-- The core of a host is steady. -/
def Steady (process : HostProcess H) : Prop := process.host.core.Steady process.db

variable {process : HostProcess H}

theorem Steady.restartable (steady : process.Steady) : process.Restartable := by
  have highest_eq : process.db.load.highestQc = process.host.core.highestQc := steady.loads.highest
  have locked_eq : process.db.load.lockedQc = process.host.core.lockedQc := steady.loads.locked
  obtain ⟨ahead, timeout, locked_le, decided_le⟩ := steady.saved
  apply ConsensusHost.exists_validateRuntimeState.mpr
  simp only [ConsensusHost.startAgain, pacemaker_recover, highestQc_recover, lockedQc_recover,
    highest_eq, locked_eq, steady.mirrors.pacemaker]
  refine ⟨ahead, timeout, fun highest mem => ?_⟩
  rw [Option.mem_def.mp mem] at locked_le decided_le
  exact ⟨locked_le, decided_le⟩

theorem written_eq_take {event : HostEvent H} {call : Call H}
    (acts : process.host.callOf event.cause = some call) :
    process.written event =
      (process.host.core.commits call).take (process.written event).length := by
  apply process.host.core.eq_take_of_prefix call
  cases event with
  | action action =>
      rw [written, ConsensusHost.transactionsOf]
      rw [HostEvent.cause] at acts
      rw [acts]
      exact List.prefix_refl _
  | stop action commits =>
      rw [written, ConsensusHost.transactionsOf]
      rw [HostEvent.cause] at acts
      rw [acts]
      exact List.take_prefix _ _

theorem Steady.step (ideal : IdealSha256 H) {event : HostEvent H} (steady : process.Steady)
    (behind : process.StopsBehind event) : (process.step event).Steady := by
  cases event with
  | action action =>
      rw [HostProcess.Steady, HostProcess.step, ConsensusHost.core_act]
      rw [StopsBehind, HostEvent.cause] at behind
      simp only [written, ConsensusHost.transactionsOf] at behind ⊢
      cases acts : process.host.callOf action with
      | none => exact steady
      | some call =>
          have behind := behind call acts
          rw [acts] at behind
          exact ConsensusCore.Steady.performStored ideal steady behind
  | stop action commits =>
      rw [HostProcess.Steady, HostProcess.step, ConsensusHost.startAgain]
      cases acts : process.host.callOf action with
      | none =>
          -- Nothing is written, as at the start of a call that observes no certificate.
          have nothing : process.host.core.LeavesBehind (.observeQc none) 0 := nofun
          simp only [written, ConsensusHost.transactionsOf, acts, Option.elim, List.take_nil]
          exact ConsensusCore.Steady.recover ideal steady nothing
      | some call =>
          have kept := ConsensusCore.Steady.recover ideal steady (behind call acts)
          rw [← written_eq_take acts] at kept
          exact kept

theorem stopsBehind_of_restartable (ideal : IdealSha256 H) {event : HostEvent H}
    (steady : process.Steady) (restartable : (process.step event).Restartable) :
    process.StopsBehind event := by
  intro call acts qc observes second unsaved
  obtain ⟨pacemaker_eq, highest_eq, -⟩ :=
    ConsensusCore.Steady.recover_take ideal steady call (process.written event).length
  have ahead := (ConsensusHost.exists_validateRuntimeState.mp restartable).1
  have db_eq : (process.step event).db = process.db.applyAll
      ((process.host.core.commits call).take (process.written event).length) := by
    rw [← written_eq_take acts]
    cases event <;> rfl
  rw [pacemaker_recover, savedWithin, if_pos (.inr (by rw [Option.mem_def.mp observes]; omega))]
    at pacemaker_eq
  rw [highestQc_recover, highestWithin, if_neg (by omega), Option.mem_def.mp observes]
    at highest_eq
  simp only [ConsensusHost.startAgain, pacemaker_recover, highestQc_recover, db_eq, pacemaker_eq,
    highest_eq, roundOf_highestAfter] at ahead
  exact (le_max_right _ _).trans_lt ahead

/-- A host can start again after every stop exactly when no stop between saving a certificate and
saving the pacemaker leaves the pacemaker behind. -/
theorem restartable_iff (ideal : IdealSha256 H) (host : ConsensusHost H) (chainId epochId : ℕ)
    {localValidatorId : String} {validatorSet : ValidatorSet}
    (member : validatorSet.contains localValidatorId = true)
    (fresh_eq : host.core = fresh chainId epochId localValidatorId validatorSet member)
    (events : List (HostEvent H)) :
    Runs.Along step StopsBehind (initial host) events ↔
      ∀ earlier, earlier <+: events → (earlier.foldl step (initial host)).Restartable := by
  have steady : (initial host).Steady := by
    rw [HostProcess.Steady, initial, fresh_eq]
    exact steady_fresh chainId epochId member
  exact Runs.along_iff_always (fun _ _ steady _ behind => Steady.step ideal steady behind)
    (fun _ => Steady.restartable)
    (fun _ _ steady _ restartable => stopsBehind_of_restartable ideal steady restartable)
    (Runs.along_of_forall (fun _ _ => trivial) _ _) steady

/-! ### Stops in a finalize message -/

open SymbolicDigest ConsensusHost

/-- The lone host cannot start again when it stops after the second commit of a finalize message. -/
theorem not_restartable_finalize :
    ¬ ((initial loneHost).step
      (.stop (.envelope (.consensusFinalize firstBlock firstCommit)) 2)).Restartable := by
  intro restartable
  have steady : (initial loneHost).Steady := steady_fresh 1 0 CoreSystem.loneSet_contains
  have behind := stopsBehind_of_restartable idealSha256 steady restartable
  have through : ((initial loneHost).written
      (.stop (.envelope (.consensusFinalize firstBlock firstCommit)) 2)).length = 2 := rfl
  have ahead := behind _ rfl firstCommit rfl
  rw [through] at ahead
  exact absurd (ahead le_rfl (Nat.lt_succ_self 2)) (lt_irrefl 1)

/-- A host of four validators finalizes two blocks, and stops in the second message once the
pacemaker is saved and in a timeout vote. -/
def stoppedLate : List (HostEvent SymbolicDigest) :=
  [.action (.envelope (.consensusFinalize firstBlock (fourCommit firstBlock_accepted))),
    .stop (.envelope (.consensusFinalize secondBlock (fourCommit secondBlock_accepted))) 3,
    .stop (.envelope (.consensusTimeoutVote 3 3)) 1]

/-- It starts again after each of the two stops. -/
theorem restartable_stoppedLate :
    ((stoppedLate.take 2).foldl step (initial fourHost)).Restartable ∧
      (stoppedLate.foldl step (initial fourHost)).Restartable := by
  have behind : ∀ (process : HostProcess SymbolicDigest) (event : HostEvent SymbolicDigest)
      {block : BlockV2 SymbolicDigest} {commitQc : QC SymbolicDigest},
      event.cause = .envelope (.consensusFinalize block commitQc) → commitQc.phase = .commit →
        (process.written event).length = 3 → process.StopsBehind event := by
    intro process event block commitQc cause commit through call acts qc observes _ unsaved
    rw [cause, ConsensusHost.callOf, coreCall, if_neg (not_not.mpr commit)] at acts
    obtain rfl := Option.some.inj acts
    obtain rfl := Option.some.inj observes
    rw [through, qcCommits, commit] at unsaved
    exact absurd unsaved (lt_irrefl 3)
  have along : Runs.Along step StopsBehind (initial fourHost) stoppedLate := by
    refine ⟨behind _ _ rfl rfl rfl, behind _ _ rfl rfl rfl, ?_, trivial⟩
    intro call acts qc observes
    obtain rfl := Option.some.inj acts
    cases observes
  have restartable :=
    (restartable_iff idealSha256 fourHost 1 0 CoreSystem.fourSet_contains rfl _).mp along
  exact ⟨restartable _ (List.take_prefix 2 stoppedLate), restartable _ List.prefix_rfl⟩

end HostProcess

end EZChain
