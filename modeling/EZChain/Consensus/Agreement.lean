import Mathlib.Logic.Relation
import EZChain.Consensus.Calls
import EZChain.SymbolicDigest

/-!
# Agreement of consensus cores

Validators call their cores in any order.  Faulty members sign what they like, but they cannot
sign for a correct member, and a correct member asks for the vote of a phase only after it was
given the certificate of the phase before.  The votes of the correct members form a log to which
the agreement theorem for staged voting applies.
-/

namespace EZChain

open Checks ConsensusCore

variable {H : Type}

/-- A vote as a ballot: the height is the slot and the phase the stage. -/
def Vote.ballot (vote : Vote H) : Voting.Ballot String ℕ H where
  voter := vote.voterId
  slot := vote.height
  round := vote.round
  stage := vote.phase.stage
  block := vote.blockHash

/-- The validator's vote for a block is among the votes. -/
def CastFor (votes : List (Vote H)) (voterId : String) (height round : ℕ) (phase : VotePhase)
    (blockHash : H) : Prop :=
  ∃ vote ∈ votes, vote.voterId = voterId ∧ vote.height = height ∧ vote.round = round ∧
    vote.phase = phase ∧ vote.blockHash = blockHash

theorem castFor_iff {votes : List (Vote H)} {voterId : String} {height round : ℕ}
    {phase : VotePhase} {blockHash : H} :
    CastFor votes voterId height round phase blockHash ↔
      ⟨voterId, height, round, phase.stage, blockHash⟩ ∈ votes.map Vote.ballot := by
  simp [CastFor, Vote.ballot, VotePhase.stage_injective.eq_iff]

theorem CastFor.mono {votes extended : List (Vote H)} (subset : votes ⊆ extended)
    {voterId : String} {height round : ℕ} {phase : VotePhase} {blockHash : H}
    (cast : CastFor votes voterId height round phase blockHash) :
    CastFor extended voterId height round phase blockHash := by
  obtain ⟨vote, mem, same⟩ := cast
  exact ⟨vote, subset mem, same⟩

/-- A certificate signed by a quorum whose correct members cast the certified votes. -/
structure Authentic (validatorSet : ValidatorSet) (faulty : Finset String)
    (votes : List (Vote H)) (qc : QC H) : Prop where
  members : ∀ signer ∈ qc.signers.ids, validatorSet.contains signer = true
  quorum : validatorSet.hasQuorum qc.signers.ids.toFinset = true
  signed : ∀ signer ∈ qc.signers.ids, signer ∉ faulty →
    CastFor votes signer qc.height qc.round qc.phase qc.blockHash

theorem Authentic.mono {validatorSet : ValidatorSet} {faulty : Finset String}
    {votes extended : List (Vote H)} {qc : QC H} (subset : votes ⊆ extended)
    (authentic : Authentic validatorSet faulty votes qc) :
    Authentic validatorSet faulty extended qc where
  members := authentic.members
  quorum := authentic.quorum
  signed signer mem correct := (authentic.signed signer mem correct).mono subset

/-- An authentic certificate certifies its block in the log of the votes. -/
theorem Authentic.certified {validatorSet : ValidatorSet} {faulty : Finset String}
    (bound : (validatorSet.memberIds ∩ faulty).card ≤ (validatorSet.memberIds.card - 1) / 3)
    {votes : List (Vote H)} {qc : QC H} (authentic : Authentic validatorSet faulty votes qc) :
    Voting.Certified (validatorSet.committee faulty bound) (votes.map Vote.ballot) qc.height
      qc.round qc.phase.stage qc.blockHash := by
  refine ⟨qc.signers.ids.toFinset, ValidatorSet.isQuorum_of_hasQuorum ?_ authentic.quorum, ?_⟩
  · intro signer mem
    exact ValidatorSet.contains_iff.mp (authentic.members signer (List.mem_toFinset.mp mem))
  · intro signer mem correct
    exact castFor_iff.mp (authentic.signed signer (List.mem_toFinset.mp mem) correct)

/-! ## Runs of the cores -/

/-- The members of a validator set that follow the protocol. -/
abbrev CorrectMember (validatorSet : ValidatorSet) (faulty : Finset String) :=
  {validatorId : String // validatorSet.contains validatorId = true ∧ validatorId ∉ faulty}

/-- The cores of the correct members, the votes they cast so far in the order of casting, and the
certificates each of them was given through `observe_qc`. -/
structure CoreSystem (H : Type) (validatorSet : ValidatorSet) (faulty : Finset String) where
  /-- The core of each correct member. -/
  cores : CorrectMember validatorSet faulty → ConsensusCore H
  /-- History: the votes of correct members, in the order of casting. -/
  votes : List (Vote H)
  /-- History: the certificates that each member was given through `observe_qc`. -/
  fed : CorrectMember validatorSet faulty → List (QC H)

/-- The certificate that `observe_qc` is given. -/
def ConsensusCore.Call.fed : Call H → Option (QC H)
  | .observeQc qc => qc
  | _ => none

/-- The certificate that comes with a call. -/
def ConsensusCore.Call.given : Call H → Option (QC H)
  | .observeQc qc => qc
  | .validateProposal _ justifyQc => justifyQc
  | .makeVote _ justifyQc _ => justifyQc
  | _ => none

namespace CoreSystem

variable {validatorSet : ValidatorSet} {faulty : Finset String}

/-- The certificates and votes that a call brings from outside are authentic. -/
structure Authenticated (sys : CoreSystem H validatorSet faulty) (call : Call H) : Prop where
  certificate : ∀ qc ∈ call.given, Authentic validatorSet faulty sys.votes qc
  vote : ∀ vote, call = .acceptVote vote → vote.voterId ∉ faulty → vote ∈ sys.votes

/-- The certificate of the phase before was fed to the core. -/
def PhaseOrdered (fed : List (QC H)) (vote : Vote H) : Prop :=
  ∀ phase ∈ vote.phase.previous, ∃ qc ∈ fed, qc.phase = phase ∧ qc.height = vote.height ∧
    qc.round = vote.round ∧ qc.blockHash = vote.blockHash

variable [DecidableEq H] [Crypto H]

/-- All correct members open an empty store. -/
def initial (validatorSet : ValidatorSet) (faulty : Finset String) (chainId epochId : ℕ) :
    CoreSystem H validatorSet faulty where
  cores member := .fresh chainId epochId member.1 validatorSet member.2.1
  votes := []
  fed _ := []

/-- A member makes a call. -/
def perform (sys : CoreSystem H validatorSet faulty) (member : CorrectMember validatorSet faulty)
    (call : Call H) : CoreSystem H validatorSet faulty where
  cores := Function.update sys.cores member ((sys.cores member).perform call)
  votes := sys.votes ++ ((sys.cores member).emitted call).toList
  fed := Function.update sys.fed member (sys.fed member ++ call.fed.toList)

/-- One call of one correct member whose votes meet a condition on its core and the call. -/
inductive Step (condition : ConsensusCore H → Call H → Prop) :
    CoreSystem H validatorSet faulty → CoreSystem H validatorSet faulty → Prop
  | call {sys : CoreSystem H validatorSet faulty} {member : CorrectMember validatorSet faulty}
      {call : Call H} (authenticated : sys.Authenticated call)
      (ordered : ∀ vote ∈ (sys.cores member).emitted call, PhaseOrdered (sys.fed member) vote)
      (admitted : ((sys.cores member).emitted call).isSome → condition (sys.cores member) call) :
      Step condition sys (sys.perform member call)

/-- Systems reached from empty stores when all votes meet a condition. -/
def Reachable (condition : ConsensusCore H → Call H → Prop) (chainId epochId : ℕ)
    (sys : CoreSystem H validatorSet faulty) : Prop :=
  Relation.ReflTransGen (Step condition) (initial validatorSet faulty chainId epochId) sys

theorem Reachable.call {condition : ConsensusCore H → Call H → Prop} {chainId epochId : ℕ}
    {sys : CoreSystem H validatorSet faulty} (reachable : Reachable condition chainId epochId sys)
    (member : CorrectMember validatorSet faulty) (call : Call H)
    (authenticated : sys.Authenticated call)
    (ordered : ∀ vote ∈ (sys.cores member).emitted call, PhaseOrdered (sys.fed member) vote)
    (admitted : ((sys.cores member).emitted call).isSome → condition (sys.cores member) call) :
    Reachable condition chainId epochId (sys.perform member call) :=
  reachable.tail (.call authenticated ordered admitted)

/-! ## Invariant of a member -/

/-- What a correct member's core knows about the votes and certificates so far. -/
structure MemberInvariant (sys : CoreSystem H validatorSet faulty)
    (member : CorrectMember validatorSet faulty) : Prop where
  localId : (sys.cores member).localValidatorId = member.1
  sameSet : (sys.cores member).validatorSet = validatorSet
  /-- The own votes are the local choices. -/
  choice : ∀ vote ∈ sys.votes, vote.voterId = member.1 →
    (sys.cores member).localVoteChoice.get? (vote.height, vote.round, vote.phase) =
      some vote.blockHash
  locked : ∀ qc ∈ (sys.cores member).lockedQc, Authentic validatorSet faulty sys.votes qc
  fed : ∀ qc ∈ sys.fed member, Authentic validatorSet faulty sys.votes qc
  /-- The lock is not older than a precommit certificate that was fed. -/
  fedLocked : ∀ qc ∈ sys.fed member, qc.phase = .precommit →
    ∃ locked ∈ (sys.cores member).lockedQc, qc.round ≤ locked.round
  /-- The lock is not older than an own commit vote. -/
  votedLocked : ∀ vote ∈ sys.votes, vote.voterId = member.1 → vote.phase = .commit →
    ∃ locked ∈ (sys.cores member).lockedQc, vote.round ≤ locked.round
  /-- Counted votes of correct members were cast. -/
  counted : ∀ height round phase blockHash,
    ∀ signer ∈ (sys.cores member).voteCollector.signersOf height round phase blockHash,
      validatorSet.contains signer = true ∧
        (signer ∉ faulty → CastFor sys.votes signer height round phase blockHash)

omit [Crypto H] in
theorem initial_invariant (chainId epochId : ℕ) (member : CorrectMember validatorSet faulty) :
    MemberInvariant (initial (H := H) validatorSet faulty chainId epochId) member where
  localId := rfl
  sameSet := rfl
  choice := by simp [initial]
  locked := by simp [initial, fresh, lockedQc, ConsensusStore.empty]
  fed := by simp [initial]
  fedLocked := by simp [initial]
  votedLocked := by simp [initial]
  counted height round phase blockHash signer mem := by
    simp [initial, fresh, VoteCollector.signersOf_empty] at mem

section StepInvariant

variable {sys : CoreSystem H validatorSet faulty} {member : CorrectMember validatorSet faulty}
  {call : Call H}

theorem votes_subset_perform : sys.votes ⊆ (sys.perform member call).votes :=
  List.subset_append_left _ _

theorem voterId_of_emitted (invariant : MemberInvariant sys member) {vote : Vote H}
    (emits : (sys.cores member).emitted call = some vote) : vote.voterId = member.1 := by
  obtain ⟨proposal, justifyQc, phase, -, rfl, -⟩ := emitted_eq_some emits
  exact invariant.localId

theorem counted_perform (invariant : MemberInvariant sys member)
    (authenticated : sys.Authenticated call) (height round : ℕ) (phase : VotePhase)
    (blockHash : H) (signer : String)
    (mem : signer ∈ ((sys.cores member).perform call).voteCollector.signersOf height round phase
      blockHash) :
    validatorSet.contains signer = true ∧
      (signer ∉ faulty → CastFor (sys.perform member call).votes signer height round phase
        blockHash) := by
  rcases mem_signersOf_perform _ call mem with before | ⟨vote, rfl, known, rfl, rfl, rfl, rfl, rfl⟩
  · obtain ⟨known, cast⟩ := invariant.counted height round phase blockHash signer before
    exact ⟨known, fun correct => (cast correct).mono votes_subset_perform⟩
  · refine ⟨invariant.sameSet ▸ known, fun correct => ?_⟩
    exact
      ⟨vote, votes_subset_perform (authenticated.vote vote rfl correct), rfl, rfl, rfl, rfl, rfl⟩

/-- A certificate that a call observes is authentic: it was given as such or was formed from
authentic votes. -/
theorem authentic_observed (invariant : MemberInvariant sys member)
    (authenticated : sys.Authenticated call) {qc : QC H}
    (observes : qc ∈ (sys.cores member).observed call) :
    Authentic validatorSet faulty (sys.perform member call).votes qc := by
  have given : qc ∈ call.given →
      Authentic validatorSet faulty (sys.perform member call).votes qc :=
    fun mem => (authenticated.certificate qc mem).mono votes_subset_perform
  cases call with
  | observeQc _ => exact given observes
  | validateProposal _ _ => exact given observes
  | makeVote _ _ _ => exact given observes
  | acceptVote vote =>
      obtain ⟨rfl, -, -, quorum, -⟩ := observed_acceptVote _ observes
      rw [invariant.sameSet] at quorum
      have known := fun signer mem => counted_perform invariant authenticated _ _ _ _ signer
        (mem_signersOf_formed _ observes mem)
      refine ⟨fun signer mem => (known signer mem).1, ?_, fun signer mem => (known signer mem).2⟩
      rwa [VoteCollector.toFinset_certificate]
  | observeTc _ => simp [observed] at observes
  | makeTimeoutVote _ _ => simp [observed] at observes
  | acceptTimeoutVote _ => simp [observed] at observes

/-- After an emitted vote, all own votes are local choices. -/
theorem choice_perform (invariant : MemberInvariant sys member) (vote : Vote H)
    (mem : vote ∈ (sys.perform member call).votes) (own : vote.voterId = member.1) :
    ((sys.cores member).perform call).localVoteChoice.get? (vote.height, vote.round, vote.phase) =
      some vote.blockHash := by
  simp only [CoreSystem.perform, List.mem_append, Option.mem_toList] at mem
  cases emits : (sys.cores member).emitted call with
  | none =>
      rw [localVoteChoice_perform _ call emits]
      simp only [emits, reduceCtorEq, or_false] at mem
      exact invariant.choice vote mem own
  | some made =>
      obtain ⟨proposal, justifyQc, phase, -, rfl, -, consistent, choice⟩ := emitted_eq_some emits
      rw [choice, OrderedDict.get?_set]
      rcases mem with before | now
      · have recorded := invariant.choice vote before own
        split
        next same =>
          rw [← same] at recorded
          exact congrArg some (consistent _ recorded).symm
        · exact recorded
      · rw [emits, Option.some_inj] at now
        subst now
        exact if_pos rfl

/-- A call of a member keeps its invariant. -/
theorem MemberInvariant.perform_self (invariant : MemberInvariant sys member)
    (authenticated : sys.Authenticated call)
    (ordered : ∀ vote ∈ (sys.cores member).emitted call, PhaseOrdered (sys.fed member) vote) :
    MemberInvariant (sys.perform member call) member := by
  have core_eq : (sys.perform member call).cores member = (sys.cores member).perform call := by
    simp [CoreSystem.perform]
  have fed_eq : (sys.perform member call).fed member = sys.fed member ++ call.fed.toList := by
    simp [CoreSystem.perform]
  have later : ∀ locked ∈ (sys.cores member).lockedQc,
      ∃ next ∈ ((sys.cores member).perform call).lockedQc, locked.round ≤ next.round := by
    rw [lockedQc_perform]
    exact fun locked mem => exists_mem_lockAfter _ mem
  have newer : ∀ round, (∃ locked ∈ (sys.cores member).lockedQc, round ≤ locked.round) →
      ∃ next ∈ ((sys.cores member).perform call).lockedQc, round ≤ next.round := by
    rintro round ⟨locked, mem, le⟩
    obtain ⟨next, mem_next, le_next⟩ := later locked mem
    exact ⟨next, mem_next, le.trans le_next⟩
  constructor
  case localId =>
    rw [core_eq, (identity_perform _ call).1]
    exact invariant.localId
  case sameSet =>
    rw [core_eq, (identity_perform _ call).2.1]
    exact invariant.sameSet
  case choice =>
    rw [core_eq]
    exact choice_perform invariant
  case locked =>
    intro qc mem
    rw [core_eq, lockedQc_perform] at mem
    rcases mem_lockAfter mem with before | now
    · exact (invariant.locked qc before).mono votes_subset_perform
    · exact authentic_observed invariant authenticated now
  case fed =>
    intro qc mem
    rw [fed_eq, List.mem_append, Option.mem_toList] at mem
    rcases mem with before | now
    · exact (invariant.fed qc before).mono votes_subset_perform
    · refine (authenticated.certificate qc ?_).mono votes_subset_perform
      cases call <;> simp_all [Call.fed, Call.given]
  case fedLocked =>
    intro qc mem precommit
    rw [core_eq]
    rw [fed_eq, List.mem_append, Option.mem_toList] at mem
    rcases mem with before | now
    · exact newer _ (invariant.fedLocked qc before precommit)
    · cases call with
      | observeQc given =>
          obtain rfl : given = some qc := now
          rw [lockedQc_perform]
          exact exists_mem_lockAfter_self _ precommit
      | _ => simp [Call.fed] at now
  case votedLocked =>
    intro vote mem own commit
    rw [core_eq]
    simp only [CoreSystem.perform, List.mem_append, Option.mem_toList] at mem
    rcases mem with before | now
    · exact newer _ (invariant.votedLocked vote before own commit)
    · obtain ⟨qc, mem, precommit, -, round_eq, -⟩ :=
        ordered vote now .precommit (by rw [commit]; rfl)
      exact newer _ (round_eq ▸ invariant.fedLocked qc mem precommit)
  case counted =>
    rw [core_eq]
    exact counted_perform invariant authenticated

/-- A call of another member keeps the invariant. -/
theorem MemberInvariant.perform_other (invariant : MemberInvariant sys member)
    {other : CorrectMember validatorSet faulty} (other_ne : other ≠ member)
    (invariant_other : MemberInvariant sys other) :
    MemberInvariant (sys.perform member call) other := by
  have core_eq : (sys.perform member call).cores other = sys.cores other :=
    Function.update_of_ne other_ne _ _
  have fed_eq : (sys.perform member call).fed other = sys.fed other :=
    Function.update_of_ne other_ne _ _
  -- The only new vote is cast by the calling member.
  have own : ∀ vote ∈ (sys.perform member call).votes, vote.voterId = other.1 →
      vote ∈ sys.votes := by
    intro vote mem voter
    simp only [CoreSystem.perform, List.mem_append, Option.mem_toList] at mem
    refine mem.resolve_right fun now => other_ne (Subtype.ext ?_)
    rw [← voter, voterId_of_emitted invariant now]
  constructor
  case localId => exact core_eq ▸ invariant_other.localId
  case sameSet => exact core_eq ▸ invariant_other.sameSet
  case choice =>
    rw [core_eq]
    exact fun vote mem voter => invariant_other.choice vote (own vote mem voter) voter
  case locked =>
    rw [core_eq]
    exact fun qc mem => (invariant_other.locked qc mem).mono votes_subset_perform
  case fed =>
    rw [fed_eq]
    exact fun qc mem => (invariant_other.fed qc mem).mono votes_subset_perform
  case fedLocked =>
    rw [core_eq, fed_eq]
    exact invariant_other.fedLocked
  case votedLocked =>
    rw [core_eq]
    exact fun vote mem voter => invariant_other.votedLocked vote (own vote mem voter) voter
  case counted =>
    rw [core_eq]
    intro height round phase blockHash signer mem
    obtain ⟨known, cast⟩ := invariant_other.counted height round phase blockHash signer mem
    exact ⟨known, fun correct => (cast correct).mono votes_subset_perform⟩

end StepInvariant

/-! ## The rule for votes -/

/-- The lock answers for the block of a proposal: it is on that block, or it is on another block
and the proposal comes with a certificate for its own block. -/
def LockAnswered (core : ConsensusCore H) (proposal : Proposal H) (justifyQc : Option (QC H)) :
    Prop :=
  (∃ locked ∈ core.lockedQc, locked.height = proposal.height ∧
      locked.blockHash = proposal.blockHash) ∨
    ((∀ locked ∈ core.lockedQc, locked.blockHash ≠ proposal.blockHash) ∧
      ∃ justify ∈ justifyQc, justify.height = proposal.height ∧
        justify.blockHash = proposal.blockHash)

/-- A vote does not leave a later round for another block, and after a commit vote for another
block of the height the lock answers for the proposed one. -/
def VoteGuarded (core : ConsensusCore H) : Call H → Prop
  | .makeVote proposal justifyQc _ =>
      ∀ round phase block, core.localVoteChoice.get? (proposal.height, round, phase) = some block →
        block ≠ proposal.blockHash →
          round ≤ proposal.round ∧ (phase = .commit → LockAnswered core proposal justifyQc)
  | _ => True

omit [DecidableEq H] [Crypto H] in
theorem exists_certificate_of_lockAnswered {core : ConsensusCore H} {proposal : Proposal H}
    {justifyQc : Option (QC H)} (answered : LockAnswered core proposal justifyQc)
    (passes : LockPasses (lockAfter core.lockedQc justifyQc) justifyQc proposal.blockHash)
    {locked : QC H} (mem : locked ∈ core.lockedQc) :
    ∃ qc, (qc ∈ core.lockedQc ∨ qc ∈ justifyQc) ∧ qc.height = proposal.height ∧
      qc.blockHash = proposal.blockHash ∧ locked.round ≤ qc.round := by
  rcases answered with ⟨current, mem_current, height_eq, block_eq⟩ |
      ⟨other, justify, given, height_eq, block_eq⟩
  · have same : locked = current := Option.mem_unique mem mem_current
    exact ⟨current, .inl mem_current, height_eq, block_eq, same ▸ le_rfl⟩
  · refine ⟨justify, .inr given, height_eq, block_eq, ?_⟩
    obtain ⟨next, mem_next, le⟩ := exists_mem_lockAfter justifyQc mem
    rcases mem_lockAfter mem_next with before | observed
    · have block_ne := other next before
      refine le.trans (passes next mem_next justify given (Ne.symm block_ne) ?_)
      rw [block_eq]
      exact Ne.symm block_ne
    · rwa [Option.mem_unique observed given] at le

/-- A guarded vote is an admissible ballot. -/
theorem admissible_of_guarded
    (bound : (validatorSet.memberIds ∩ faulty).card ≤ (validatorSet.memberIds.card - 1) / 3)
    {sys : CoreSystem H validatorSet faulty} {member : CorrectMember validatorSet faulty}
    {call : Call H} {vote : Vote H} (invariant : MemberInvariant sys member)
    (authenticated : sys.Authenticated call)
    (emits : (sys.cores member).emitted call = some vote)
    (ordered : PhaseOrdered (sys.fed member) vote)
    (guarded : VoteGuarded (sys.cores member) call) :
    Voting.Admissible (validatorSet.committee faulty bound) VotePhase.commit.stage
      (sys.votes.map Vote.ballot) vote.ballot := by
  obtain ⟨proposal, justifyQc, phase, rfl, rfl, passes, consistent, -⟩ := emitted_eq_some emits
  -- An earlier ballot of the voter is an own vote, so it is among the local choices.
  have choice : ∀ earlier ∈ sys.votes.map Vote.ballot, earlier.voter = member.1 →
      ∃ vote ∈ sys.votes, vote.voterId = member.1 ∧ vote.ballot = earlier ∧
        (sys.cores member).localVoteChoice.get? (vote.height, vote.round, vote.phase) =
          some vote.blockHash := by
    intro earlier mem own
    obtain ⟨vote, cast, rfl⟩ := List.mem_map.mp mem
    exact ⟨vote, cast, own, rfl, invariant.choice vote cast own⟩
  have own_id : (sys.cores member).localValidatorId = member.1 := invariant.localId
  constructor
  case consistent =>
    intro earlier mem voter slot round stage
    obtain ⟨vote, -, -, rfl, recorded⟩ := choice earlier mem (voter.trans own_id)
    have phase_eq : vote.phase = phase := VotePhase.stage_injective stage
    have height_eq : vote.height = proposal.height := slot
    have round_eq : vote.round = proposal.round := round
    rw [height_eq, round_eq, phase_eq] at recorded
    exact consistent vote.blockHash recorded
  case forward =>
    intro earlier mem voter slot block_ne
    obtain ⟨vote, -, -, rfl, recorded⟩ := choice earlier mem (voter.trans own_id)
    have height_eq : vote.height = proposal.height := slot
    rw [height_eq] at recorded
    exact (guarded vote.round vote.phase vote.blockHash recorded block_ne).1
  case staged =>
    intro stage next
    obtain ⟨before, previous, rfl⟩ := VotePhase.exists_previous next
    obtain ⟨qc, mem, phase_eq, height_eq, round_eq, block_eq⟩ := ordered before previous
    have certified := (invariant.fed qc mem).certified bound
    rwa [height_eq, round_eq, phase_eq, block_eq] at certified
  case unlocked =>
    intro earlier mem voter slot stage block_ne
    obtain ⟨vote, cast, own, rfl, recorded⟩ := choice earlier mem (voter.trans own_id)
    have phase_eq : vote.phase = .commit := VotePhase.stage_injective stage
    have height_eq : vote.height = proposal.height := slot
    rw [height_eq] at recorded
    have answered := (guarded vote.round vote.phase vote.blockHash recorded block_ne).2 phase_eq
    obtain ⟨locked, mem_locked, le⟩ := invariant.votedLocked vote cast own phase_eq
    obtain ⟨qc, source, qc_height, qc_block, later⟩ :=
      exists_certificate_of_lockAnswered answered passes mem_locked
    have authentic : Authentic validatorSet faulty sys.votes qc :=
      source.elim (invariant.locked qc) (authenticated.certificate qc)
    have certified := authentic.certified bound
    rw [qc_height, qc_block] at certified
    exact ⟨qc.round, qc.phase.stage, le.trans later, certified⟩

/-! ## Agreement -/

/-- In a run whose votes are guarded, every core keeps its invariant and the votes form a sound
log. -/
theorem Reachable.invariant
    (bound : (validatorSet.memberIds ∩ faulty).card ≤ (validatorSet.memberIds.card - 1) / 3)
    {chainId epochId : ℕ} {sys : CoreSystem H validatorSet faulty}
    (reachable : Reachable VoteGuarded chainId epochId sys) :
    (∀ member, MemberInvariant sys member) ∧
      Voting.SoundLog (validatorSet.committee faulty bound) VotePhase.commit.stage
        (sys.votes.map Vote.ballot) := by
  induction reachable with
  | refl => exact ⟨initial_invariant chainId epochId, Voting.soundLog_nil⟩
  | @tail before _ _ step induction =>
      obtain ⟨invariant, sound⟩ := induction
      obtain @⟨member, call, authenticated, ordered, admitted⟩ := step
      constructor
      · intro other
        by_cases same : other = member
        · exact same ▸ (invariant member).perform_self authenticated ordered
        · exact (invariant member).perform_other same (invariant other)
      · cases emits : (before.cores member).emitted call with
        | none => simpa [CoreSystem.perform, emits] using sound
        | some vote =>
            have guarded := admitted (by rw [emits]; rfl)
            have admissible := admissible_of_guarded bound (invariant member) authenticated emits
              (ordered vote emits) guarded
            simpa [CoreSystem.perform, emits] using sound.snoc admissible

/-- In a run whose votes are guarded, two authentic commit certificates of one height are for one
block. -/
theorem commit_agreement
    (bound : (validatorSet.memberIds ∩ faulty).card ≤ (validatorSet.memberIds.card - 1) / 3)
    {chainId epochId : ℕ} {sys : CoreSystem H validatorSet faulty}
    (reachable : Reachable VoteGuarded chainId epochId sys) (left right : QC H)
    (left_authentic : Authentic validatorSet faulty sys.votes left)
    (right_authentic : Authentic validatorSet faulty sys.votes right)
    (left_commit : left.phase = .commit) (right_commit : right.phase = .commit)
    (height_eq : left.height = right.height) : left.blockHash = right.blockHash := by
  have sound := (reachable.invariant bound).2
  have left_certified := left_authentic.certified bound
  have right_certified := right_authentic.certified bound
  rw [left_commit, height_eq] at left_certified
  rw [right_commit] at right_certified
  exact sound.agreement left_certified right_certified

/-! ## Rounds of open proposals

The members vote in all phases for a block that is proposed without a certificate, and are given
the certificates of their votes. -/

section Rounds

/-- A proposal for height 1 without a justifying certificate. -/
def openProposal (validatorSet : ValidatorSet) {leader : String} (leader_ne : leader ≠ "")
    {round : ℕ} (round_pos : 0 < round) (block : H) : Proposal H :=
  ⟨1, 0, 1, round, leader, validatorSet.validatorSetHash, block, none, Nat.one_pos, round_pos,
    leader_ne⟩

/-- The certificate of some signers for a block at height 1. -/
def roundQc (validatorSet : ValidatorSet) (signers : Signers) {round : ℕ} (round_pos : 0 < round)
    (block : H) (phase : VotePhase) : QC H :=
  ⟨1, 0, 1, round, phase, validatorSet.validatorSetHash, block, signers, Nat.one_pos, round_pos⟩

/-- The signers are a quorum of members, and those that are not faulty are among the voters. -/
structure Backed (voters : List (CorrectMember validatorSet faulty)) (signers : Signers) :
    Prop where
  members : ∀ signer ∈ signers.ids, validatorSet.contains signer = true
  quorum : validatorSet.hasQuorum signers.ids.toFinset = true
  voters : ∀ signer ∈ signers.ids, signer ∉ faulty → ∃ member ∈ voters, member.1 = signer

/-- A member is in a round in which it has voted for no other block, nor in a later round. -/
structure MemberView (validatorSet : ValidatorSet) (memberId : String) (core : ConsensusCore H)
    (past : H → Prop) (round : ℕ) (block : H) : Prop where
  chain : core.chainId = 1 ∧ core.epochId = 0
  sameSet : core.validatorSet = validatorSet
  localId : core.localValidatorId = memberId
  current : core.pacemaker.currentRound ≤ round + 1
  consistent : ∀ phase, ∀ existing ∈ core.localVoteChoice.get? (1, round, phase), existing = block
  unvoted : ∀ later, round < later → ∀ phase, core.localVoteChoice.get? (1, later, phase) = none
  past : ∀ round phase, ∀ existing ∈ core.localVoteChoice.get? (1, round, phase), past existing

variable {leader : String} {leader_ne : leader ≠ ""} {round : ℕ} {round_pos : 0 < round} {block : H}
  {phase : VotePhase} {past : H → Prop} {condition : ConsensusCore H → Call H → Prop}
  {sys : CoreSystem H validatorSet faulty} {voters : List (CorrectMember validatorSet faulty)}
  {signers : Signers}

omit [DecidableEq H] [Crypto H] in
theorem memberView_initial (member : CorrectMember validatorSet faulty) (past : H → Prop)
    (block : H) :
    MemberView validatorSet member.1 ((initial validatorSet faulty 1 0).cores member) past 1
      block where
  chain := ⟨rfl, rfl⟩
  sameSet := rfl
  localId := rfl
  current := by simp [initial, fresh]
  consistent := nofun
  unvoted := fun _ _ _ => rfl
  past := nofun

omit [DecidableEq H] [Crypto H] in
/-- The view of the next round. -/
theorem MemberView.next {memberId : String} {core : ConsensusCore H}
    (view : MemberView validatorSet memberId core past round block) (other : H) :
    MemberView validatorSet memberId core past (round + 1) other where
  chain := view.chain
  sameSet := view.sameSet
  localId := view.localId
  current := view.current.trans (by omega)
  consistent phase existing mem := by
    rw [view.unvoted (round + 1) (by omega)] at mem
    cases mem
  unvoted later after := view.unvoted later (by omega)
  past := view.past

omit [DecidableEq H] in
/-- A certificate whose correct signers have cast its votes is authentic. -/
theorem Backed.authentic (backed : Backed voters signers) {votes : List (Vote H)}
    (cast : ∀ member ∈ voters, CastFor votes member.1 1 round phase block) :
    Authentic validatorSet faulty votes (roundQc validatorSet signers round_pos block phase) where
  members := backed.members
  quorum := backed.quorum
  signed signer mem correct := by
    obtain ⟨member, voter, rfl⟩ := backed.voters signer mem correct
    exact cast member voter

/-- A member votes. -/
theorem exists_vote {member : CorrectMember validatorSet faulty}
    (known : validatorSet.contains leader = true) (reachable : Reachable condition 1 0 sys)
    (view : MemberView validatorSet member.1 (sys.cores member) past round block)
    (past_block : past block)
    (ordered : ∀ before ∈ phase.previous, ∃ qc ∈ sys.fed member, qc.phase = before ∧
      qc.height = 1 ∧ qc.round = round ∧ qc.blockHash = block)
    (admitted : condition (sys.cores member)
      (.makeVote (openProposal validatorSet leader_ne round_pos block) none phase)) :
    ∃ next : CoreSystem H validatorSet faulty, Reachable condition 1 0 next ∧
      MemberView validatorSet member.1 (next.cores member) past round block ∧
      (∀ other, other ≠ member → next.cores other = sys.cores other) ∧ sys.votes ⊆ next.votes ∧
      CastFor next.votes member.1 1 round phase block ∧ next.fed = sys.fed := by
  let proposal := openProposal validatorSet leader_ne round_pos block
  have checked : ((sys.cores member).observeQc none).checkProposal proposal none = .ok () := by
    refine checkProposal_eq_ok.mpr ⟨⟨view.chain.1.symm, view.chain.2.symm⟩, ?_, ?_, view.current,
      forall_mem_none _, fun _ _ => forall_mem_none _⟩
    · simp only [observeQc, view.sameSet, proposal, openProposal]
    · simp only [observeQc, view.sameSet, proposal, openProposal, known]
  have made := makeVote_of_checked checked (view.consistent phase)
  have emits : (sys.cores member).emitted (.makeVote proposal none phase) =
      some ((sys.cores member).localVote proposal phase) := by
    rw [emitted, made]
    rfl
  have step := reachable.call member (.makeVote proposal none phase)
    ⟨by rintro _ ⟨⟩, by rintro _ ⟨⟩⟩ (by
      intro vote mem
      rw [emits, Option.mem_some_iff] at mem
      subst mem
      exact ordered) fun _ => admitted
  have choice : ∀ other phase', ∀ existing ∈
      ((sys.cores member).localVoteChoice.set (1, round, phase) block).get? (1, other, phase'),
      (other = round ∧ existing = block) ∨
        existing ∈ (sys.cores member).localVoteChoice.get? (1, other, phase') := by
    intro other phase' existing mem
    rw [OrderedDict.get?_set] at mem
    split at mem
    next same =>
      simp only [Prod.mk.injEq, true_and] at same
      exact .inl ⟨same.1.symm, (Option.mem_some_iff.mp mem).symm⟩
    · exact .inr mem
  refine ⟨_, step, ?_, fun other other_ne => Function.update_of_ne other_ne _ _,
    votes_subset_perform, ?_, by simp [CoreSystem.perform, Call.fed]⟩
  case refine_2 =>
    refine ⟨(sys.cores member).localVote proposal phase, ?_, view.localId, rfl, rfl, rfl, rfl⟩
    simp [CoreSystem.perform, emits]
  simp only [CoreSystem.perform, Function.update_self, ConsensusCore.perform, made]
  constructor
  case chain => exact view.chain
  case sameSet => exact view.sameSet
  case localId => exact view.localId
  case current => exact view.current
  case consistent =>
    intro phase' existing mem
    exact (choice round phase' existing mem).elim And.right (view.consistent phase' existing)
  case unvoted =>
    intro later after phase'
    refine Option.eq_none_iff_forall_not_mem.mpr fun existing mem => ?_
    rcases choice later phase' existing mem with ⟨same, -⟩ | before
    · omega
    · rw [view.unvoted later after phase'] at before
      cases before
  case past =>
    intro other phase' existing mem
    rcases choice other phase' existing mem with ⟨-, rfl⟩ | before
    · exact past_block
    · exact view.past other phase' existing before

/-- A member is given an authentic certificate of its round. -/
theorem exists_feed {member : CorrectMember validatorSet faulty}
    (reachable : Reachable condition 1 0 sys)
    (view : MemberView validatorSet member.1 (sys.cores member) past round block)
    (authentic : Authentic validatorSet faulty sys.votes
      (roundQc validatorSet signers round_pos block phase)) :
    ∃ next : CoreSystem H validatorSet faulty, Reachable condition 1 0 next ∧
      MemberView validatorSet member.1 (next.cores member) past round block ∧
      (∀ other, other ≠ member → next.cores other = sys.cores other) ∧ sys.votes ⊆ next.votes ∧
      roundQc validatorSet signers round_pos block phase ∈ next.fed member ∧
      ∀ other, sys.fed other ⊆ next.fed other := by
  let qc := roundQc validatorSet signers round_pos block phase
  have step := reachable.call member (.observeQc (some qc))
    ⟨by
      intro given mem
      obtain rfl : qc = given := Option.some.inj mem
      exact authentic, nofun⟩ nofun nofun
  refine ⟨_, step, ?_, fun other other_ne => Function.update_of_ne other_ne _ _,
    votes_subset_perform, by simp [CoreSystem.perform, Call.fed, qc], fun other => ?_⟩
  · simp only [CoreSystem.perform, Function.update_self, ConsensusCore.perform]
    have current : ((sys.cores member).observeQc (some qc)).pacemaker.currentRound =
        max (sys.cores member).pacemaker.currentRound (round + 1) := by
      cases phase <;> rfl
    constructor
    case chain => exact view.chain
    case sameSet => exact view.sameSet
    case localId => exact view.localId
    case current => exact current ▸ max_le view.current le_rfl
    case consistent => exact view.consistent
    case unvoted => exact view.unvoted
    case past => exact view.past
  · by_cases same : other = member
    · subst same
      simp [CoreSystem.perform]
    · simp [CoreSystem.perform, Function.update_of_ne same]

omit [DecidableEq H] [Crypto H] in
/-- A step of one member keeps the views of all voters. -/
theorem views_step {before after : CoreSystem H validatorSet faulty}
    {member : CorrectMember validatorSet faulty}
    (views : ∀ voter ∈ voters, MemberView validatorSet voter.1 (before.cores voter) past round
      block)
    (view : MemberView validatorSet member.1 (after.cores member) past round block)
    (others : ∀ other, other ≠ member → after.cores other = before.cores other) :
    ∀ voter ∈ voters, MemberView validatorSet voter.1 (after.cores voter) past round block := by
  intro voter mem
  by_cases same : voter = member
  · exact same ▸ view
  · exact others voter same ▸ views voter mem

/-- All voters vote in a phase. -/
theorem exists_votes (known : validatorSet.contains leader = true)
    (reachable : Reachable condition 1 0 sys)
    (views : ∀ member ∈ voters, MemberView validatorSet member.1 (sys.cores member) past round
      block)
    (past_block : past block)
    (ordered : ∀ member ∈ voters, ∀ before ∈ phase.previous, ∃ qc ∈ sys.fed member,
      qc.phase = before ∧ qc.height = 1 ∧ qc.round = round ∧ qc.blockHash = block)
    (admitted : ∀ memberId core, MemberView validatorSet memberId core past round block →
      condition core (.makeVote (openProposal validatorSet leader_ne round_pos block) none phase)) :
    ∃ next : CoreSystem H validatorSet faulty, Reachable condition 1 0 next ∧
      (∀ member ∈ voters, MemberView validatorSet member.1 (next.cores member) past round block) ∧
      sys.votes ⊆ next.votes ∧
      ∀ member ∈ voters, CastFor next.votes member.1 1 round phase block := by
  -- The voters vote one after the other; the views of all of them are kept.
  have run : ∀ (pending : List (CorrectMember validatorSet faulty)), pending ⊆ voters →
      ∀ start : CoreSystem H validatorSet faulty, Reachable condition 1 0 start →
        (∀ member ∈ voters, MemberView validatorSet member.1 (start.cores member) past round
          block) → start.fed = sys.fed →
          ∃ next : CoreSystem H validatorSet faulty, Reachable condition 1 0 next ∧
            (∀ member ∈ voters, MemberView validatorSet member.1 (next.cores member) past round
              block) ∧ start.votes ⊆ next.votes ∧
            ∀ member ∈ pending, CastFor next.votes member.1 1 round phase block := by
    intro pending
    induction pending with
    | nil =>
        intro _ start reachable views _
        exact ⟨start, reachable, views, List.Subset.refl _, List.forall_mem_nil _⟩
    | cons member pending induction =>
        intro among start reachable views fed_eq
        obtain ⟨mem, among⟩ := List.cons_subset.mp among
        obtain ⟨voted, reachable, view, others, subset, cast, fed_voted⟩ :=
          exists_vote known reachable (views member mem) past_block
            (by rw [fed_eq]; exact ordered member mem) (admitted _ _ (views member mem))
        obtain ⟨next, reachable, views, subset_next, casts⟩ := induction among voted reachable
          (views_step views view others) (fed_voted.trans fed_eq)
        refine ⟨next, reachable, views, fun vote earlier => subset_next (subset earlier), ?_⟩
        exact List.forall_mem_cons.mpr ⟨cast.mono subset_next, casts⟩
  exact run voters (List.Subset.refl _) sys reachable views rfl

/-- All voters are given the certificate of a phase. -/
theorem exists_feeds (round_pos : 0 < round) (reachable : Reachable condition 1 0 sys)
    (views : ∀ member ∈ voters, MemberView validatorSet member.1 (sys.cores member) past round
      block)
    (authentic : Authentic validatorSet faulty sys.votes
      (roundQc validatorSet signers round_pos block phase)) :
    ∃ next : CoreSystem H validatorSet faulty, Reachable condition 1 0 next ∧
      (∀ member ∈ voters, MemberView validatorSet member.1 (next.cores member) past round block) ∧
      sys.votes ⊆ next.votes ∧
      ∀ member ∈ voters, roundQc validatorSet signers round_pos block phase ∈ next.fed member := by
  have run : ∀ (pending : List (CorrectMember validatorSet faulty)), pending ⊆ voters →
      ∀ start : CoreSystem H validatorSet faulty, Reachable condition 1 0 start →
        (∀ member ∈ voters, MemberView validatorSet member.1 (start.cores member) past round
          block) → sys.votes ⊆ start.votes →
          ∃ next : CoreSystem H validatorSet faulty, Reachable condition 1 0 next ∧
            (∀ member ∈ voters, MemberView validatorSet member.1 (next.cores member) past round
              block) ∧ sys.votes ⊆ next.votes ∧ (∀ other, start.fed other ⊆ next.fed other) ∧
            ∀ member ∈ pending,
              roundQc validatorSet signers round_pos block phase ∈ next.fed member := by
    intro pending
    induction pending with
    | nil =>
        intro _ start reachable views subset
        exact ⟨start, reachable, views, subset, fun _ => List.Subset.refl _, List.forall_mem_nil _⟩
    | cons member pending induction =>
        intro among start reachable views subset
        obtain ⟨mem, among⟩ := List.cons_subset.mp among
        obtain ⟨given, reachable, view, others, subset_given, fed, feds⟩ :=
          exists_feed reachable (views member mem) (authentic.mono subset)
        obtain ⟨next, reachable, views, subset_next, feds_next, all_fed⟩ :=
          induction among given reachable (views_step views view others)
            fun vote earlier => subset_given (subset earlier)
        exact ⟨next, reachable, views, subset_next,
          fun other qc earlier => feds_next other (feds other earlier),
          List.forall_mem_cons.mpr ⟨feds_next member fed, all_fed⟩⟩
  obtain ⟨next, reachable, views, subset, -, fed⟩ :=
    run voters (List.Subset.refl _) sys reachable views (List.Subset.refl _)
  exact ⟨next, reachable, views, subset, fed⟩

/-- A round in which the voters commit a block. -/
theorem exists_round (round_pos : 0 < round) (leader_ne : leader ≠ "")
    (known : validatorSet.contains leader = true) (backed : Backed voters signers)
    (reachable : Reachable condition 1 0 sys)
    (views : ∀ member ∈ voters, MemberView validatorSet member.1 (sys.cores member) past round
      block)
    (past_block : past block)
    (admitted : ∀ memberId core phase, MemberView validatorSet memberId core past round block →
      condition core (.makeVote (openProposal validatorSet leader_ne round_pos block) none phase)) :
    ∃ next : CoreSystem H validatorSet faulty, Reachable condition 1 0 next ∧
      (∀ member ∈ voters, MemberView validatorSet member.1 (next.cores member) past round block) ∧
      sys.votes ⊆ next.votes ∧ Authentic validatorSet faulty next.votes
        (roundQc validatorSet signers round_pos block .commit) := by
  obtain ⟨prepared, reachable, views, subset_prepared, cast⟩ :=
    exists_votes known reachable views past_block (by rintro _ _ _ ⟨⟩)
      fun memberId core view => admitted memberId core .prepare view
  obtain ⟨opened, reachable, views, subset_opened, fed⟩ :=
    exists_feeds round_pos reachable views (backed.authentic cast)
  obtain ⟨precommitted, reachable, views, subset_precommitted, cast⟩ :=
    exists_votes known reachable views past_block
      (by rintro member mem _ ⟨⟩; exact ⟨_, fed member mem, rfl, rfl, rfl, rfl⟩)
      fun memberId core view => admitted memberId core .precommit view
  obtain ⟨locked, reachable, views, subset_locked, fed⟩ :=
    exists_feeds round_pos reachable views (backed.authentic cast)
  obtain ⟨committed, reachable, views, subset_committed, cast⟩ :=
    exists_votes known reachable views past_block
      (by rintro member mem _ ⟨⟩; exact ⟨_, fed member mem, rfl, rfl, rfl, rfl⟩)
      fun memberId core view => admitted memberId core .commit view
  refine ⟨committed, reachable, views, fun vote mem => ?_, backed.authentic cast⟩
  exact subset_committed (subset_locked (subset_precommitted (subset_opened
    (subset_prepared mem))))

/-- Two rounds, in each of which some voters commit a block. -/
theorem exists_rounds (past : H → Prop) (condition : ConsensusCore H → Call H → Prop)
    (leader_ne : leader ≠ "") (known : validatorSet.contains leader = true)
    {later : List (CorrectMember validatorSet faulty)} {laterSigners : Signers}
    (backed : Backed voters signers) (backed_later : Backed later laterSigners)
    (among : later ⊆ voters) (first second : H) (past_first : past first)
    (past_second : past second)
    (admitted : ∀ memberId core round (round_pos : 0 < round) block phase, past block →
      MemberView validatorSet memberId core past round block →
        condition core
          (.makeVote (openProposal validatorSet leader_ne round_pos block) none phase)) :
    ∃ sys : CoreSystem H validatorSet faulty, Reachable condition 1 0 sys ∧
      Authentic validatorSet faulty sys.votes
        (roundQc validatorSet signers one_pos first .commit) ∧
      Authentic validatorSet faulty sys.votes
        (roundQc validatorSet laterSigners Nat.two_pos second .commit) := by
  obtain ⟨once, reachable, views, -, authentic⟩ := exists_round one_pos leader_ne known backed
    .refl (fun member _ => memberView_initial member past first) past_first
      fun memberId core phase => admitted memberId core 1 one_pos first phase past_first
  obtain ⟨twice, reachable, -, subset, authentic_later⟩ := exists_round Nat.two_pos leader_ne
    known backed_later reachable (fun member mem => (views member (among mem)).next second)
      past_second
      fun memberId core phase => admitted memberId core 2 Nat.two_pos second phase past_second
  exact ⟨twice, reachable, authentic.mono subset, authentic_later⟩

end Rounds

/-! ## A lone validator

The voting rule lets a lone validator commit two blocks of one height: the second proposal carries
no certificate, so its lock is not consulted. -/

section Lone

open SymbolicDigest (filled)

theorem a_ne : "a" ≠ "" := by simp

theorem key_ne : ([1] : Bytes) ≠ [] := by simp

/-- The validator set of one member. -/
def loneSet : ValidatorSet where
  validators := [⟨"a", [1], [1], 1, a_ne, key_ne, key_ne, Nat.one_pos⟩]
  nonempty := by simp
  sorted := by simp
  nodup := by simp
  equalWeight := by simp

theorem loneSet_contains : loneSet.contains "a" = true := rfl

def loneMember : CorrectMember loneSet ∅ := ⟨"a", loneSet_contains, Finset.notMem_empty _⟩

theorem lone_bound :
    (loneSet.memberIds ∩ ∅).card ≤ (loneSet.memberIds.card - 1) / 3 := by
  rw [Finset.inter_empty, Finset.card_empty]
  exact Nat.zero_le _

variable {round : ℕ} (round_pos : 0 < round) (block : SymbolicDigest) (phase : VotePhase)

/-- A proposal for height 1 without a justifying certificate. -/
def loneProposal : Proposal SymbolicDigest :=
  ⟨1, 0, 1, round, "a", loneSet.validatorSetHash, block, none, Nat.one_pos, round_pos, a_ne⟩

/-- The certificate of the only member. -/
def loneQc : QC SymbolicDigest :=
  ⟨1, 0, 1, round, phase, loneSet.validatorSetHash, block,
    ⟨["a"], by simp, by simp, by simp⟩, Nat.one_pos, round_pos⟩

theorem lone_backed : Backed [loneMember] (loneQc one_pos (filled 1) .commit).signers where
  members signer mem := by
    obtain rfl : signer = "a" := by simpa [loneQc] using mem
    exact loneSet_contains
  quorum := rfl
  voters signer mem _ := by
    obtain rfl : signer = "a" := by simpa [loneQc] using mem
    exact ⟨loneMember, List.mem_singleton_self _, rfl⟩

/-- Without the condition on votes, two blocks of one height have authentic commit certificates. -/
theorem commit_disagreement :
    ∃ (sys : CoreSystem SymbolicDigest loneSet ∅) (left right : QC SymbolicDigest),
      (loneSet.memberIds ∩ ∅).card ≤ (loneSet.memberIds.card - 1) / 3 ∧
        Reachable (fun _ _ => True) 1 0 sys ∧ Authentic loneSet ∅ sys.votes left ∧
        Authentic loneSet ∅ sys.votes right ∧ left.phase = .commit ∧ right.phase = .commit ∧
        left.height = right.height ∧ left.blockHash ≠ right.blockHash := by
  obtain ⟨sys, reachable, left, right⟩ := exists_rounds (fun _ => True) (fun _ _ => True) a_ne
    loneSet_contains lone_backed lone_backed (List.Subset.refl _) (filled 1) (filled 2) trivial
    trivial fun _ _ _ _ _ _ _ _ => trivial
  exact ⟨sys, _, _, lone_bound, reachable, left, right, rfl, rfl, rfl, by simp [roundQc]⟩

end Lone

section Four

open SymbolicDigest (filled)

/-- Four members, one of which may be faulty. -/
def fourSet : ValidatorSet where
  validators :=
    [⟨"a", [1], [1], 1, by simp, by simp, by simp, Nat.one_pos⟩,
      ⟨"b", [2], [2], 1, by simp, by simp, by simp, Nat.one_pos⟩,
      ⟨"c", [3], [3], 1, by simp, by simp, by simp, Nat.one_pos⟩,
      ⟨"d", [4], [4], 1, by simp, by simp, by simp, Nat.one_pos⟩]
  nonempty := by simp
  sorted := by decide
  nodup := by decide
  equalWeight := by simp

theorem fourSet_contains : fourSet.contains "a" = true := by decide

/-- The certificate of three members. -/
def fourQc {round : ℕ} (round_pos : 0 < round) (phase : VotePhase) : QC SymbolicDigest :=
  ⟨1, 0, 1, round, phase, fourSet.validatorSetHash, filled 1,
    ⟨["a", "b", "c"], by simp, by decide, by decide⟩, Nat.one_pos, round_pos⟩

theorem hasQuorum_fourQc : fourSet.hasQuorum ["a", "b", "c"].toFinset = true := by decide

/-- The correct member of a name other than `"d"`. -/
def fourMember (memberId : String) (known : fourSet.contains memberId = true)
    (correct : memberId ∉ ({"d"} : Finset String)) : CorrectMember fourSet {"d"} :=
  ⟨memberId, known, correct⟩

/-- The members `"a"` and `"b"`. -/
def fourPair : List (CorrectMember fourSet {"d"}) :=
  [fourMember "a" (by decide) (by decide), fourMember "b" (by decide) (by decide)]

/-- The signers of the second round: the faulty member signs in place of `"c"`. -/
def fourSigners : Signers :=
  ⟨["a", "b", "d"], by simp, by decide, by decide⟩

theorem backed_fourQc :
    Backed (fourPair ++ [fourMember "c" (by decide) (by decide)])
      (fourQc one_pos .commit).signers where
  members := by decide
  quorum := hasQuorum_fourQc
  voters := by decide

theorem backed_fourSigners : Backed fourPair fourSigners where
  members := by decide
  quorum := by decide
  voters := by decide

/-- Four members, one of them faulty, commit one block in two rounds by different quorums. -/
theorem commit_agreement_four :
    ∃ (sys : CoreSystem SymbolicDigest fourSet {"d"}) (left right : QC SymbolicDigest),
      Reachable VoteGuarded 1 0 sys ∧ Authentic fourSet {"d"} sys.votes left ∧
        Authentic fourSet {"d"} sys.votes right ∧ left.round ≠ right.round ∧
        left.signers.ids ≠ right.signers.ids ∧ left.blockHash = right.blockHash := by
  obtain ⟨sys, reachable, left, right⟩ := exists_rounds (fun block => block = filled 1)
    VoteGuarded a_ne fourSet_contains backed_fourQc backed_fourSigners
    (List.subset_append_left _ _) (filled 1) (filled 1) rfl rfl (by
      rintro memberId core round round_pos block phase rfl view other phase' existing mem
        existing_ne
      exact absurd (view.past other phase' existing mem) existing_ne)
  exact ⟨sys, _, _, reachable, left, right, by simp [roundQc],
    by simp [roundQc, fourQc, fourSigners],
    commit_agreement (by decide) reachable _ _ left right rfl rfl rfl⟩

end Four

end CoreSystem

end EZChain
