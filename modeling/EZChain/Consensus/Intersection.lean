import EZChain.Consensus.LockRule

/-!
# Certificates of two collectors

Two collectors that are fed with votes in any order count the same senders at most once for a
block.  As long as few members send votes for two blocks, the quorums behind their certificates for
one phase share a member that voted for one block only.
-/

namespace EZChain

variable {H : Type} [DecidableEq H]

/-- The member sends votes for two different blocks in one phase of a round. -/
def Equivocates (votes : List (Vote H)) (voterId : String) : Prop :=
  ∃ left ∈ votes, ∃ right ∈ votes, left.voterId = voterId ∧ right.voterId = voterId ∧
    left.height = right.height ∧ left.round = right.round ∧ left.phase = right.phase ∧
    left.blockHash ≠ right.blockHash

instance (votes : List (Vote H)) : DecidablePred (Equivocates votes) :=
  fun _ => inferInstanceAs (Decidable (∃ left ∈ votes, ∃ right ∈ votes, _))

namespace VoteCollector

variable [Crypto H]

/-- A collector after a vote, whether it raises or not. -/
def feed (validatorSet : ValidatorSet) (collector : VoteCollector H) (vote : Vote H) :
    VoteCollector H :=
  match collector.addVote vote validatorSet with
  | .error _ => collector
  | .ok (_, counted) => counted

/-- A new collector after votes in the given order. -/
def feedAll (validatorSet : ValidatorSet) (votes : List (Vote H)) : VoteCollector H :=
  votes.foldl (feed validatorSet) (.empty H)

/-- A new collector that is fed with the votes returns the certificate for one of them. -/
def Returns (validatorSet : ValidatorSet) (votes : List (Vote H)) (qc : QC H) : Prop :=
  ∃ before vote after counted, votes = before ++ vote :: after ∧
    (feedAll validatorSet before).addVote vote validatorSet = .ok (some qc, counted)

variable {validatorSet : ValidatorSet}

/-- A member sent a vote for the block. -/
structure SentFor (validatorSet : ValidatorSet) (votes : List (Vote H)) (height round : ℕ)
    (phase : VotePhase) (blockHash : H) (voterId : String) : Prop where
  member : validatorSet.contains voterId = true
  vote : ∃ vote ∈ votes, vote.voterId = voterId ∧ vote.height = height ∧ vote.round = round ∧
    vote.phase = phase ∧ vote.blockHash = blockHash

omit [DecidableEq H] [Crypto H] in
theorem SentFor.mono {votes others : List (Vote H)} (subset : votes ⊆ others) {height round : ℕ}
    {phase : VotePhase} {blockHash : H} {voterId : String}
    (sent : SentFor validatorSet votes height round phase blockHash voterId) :
    SentFor validatorSet others height round phase blockHash voterId := by
  obtain ⟨vote, mem, fields⟩ := sent.vote
  exact ⟨sent.member, vote, subset mem, fields⟩

/-- Every counted signer is a member that sent a vote for the target. -/
theorem sentFor_of_mem_signersOf (votes : List (Vote H)) {height round : ℕ} {phase : VotePhase}
    {blockHash : H} {signer : String}
    (counted : signer ∈ (feedAll validatorSet votes).signersOf height round phase blockHash) :
    SentFor validatorSet votes height round phase blockHash signer := by
  induction votes using List.reverseRecOn with
  | nil => simp [feedAll, signersOf_empty] at counted
  | append_singleton votes vote induction =>
      rw [feedAll, List.foldl_append, List.foldl_cons, List.foldl_nil, ← feedAll, feed] at counted
      have earlier : signer ∈ (feedAll validatorSet votes).signersOf height round phase blockHash →
          SentFor validatorSet (votes ++ [vote]) height round phase blockHash signer :=
        fun before => (induction before).mono (List.subset_append_left _ _)
      cases added : (feedAll validatorSet votes).addVote vote validatorSet with
      | error message =>
          rw [added] at counted
          exact earlier counted
      | ok result =>
          obtain ⟨qc, collector⟩ := result
          obtain ⟨-, member, -, rfl, -⟩ := addVote_eq_ok.mp added
          simp only [added, mem_signersOf_restoreVote, Prod.mk.injEq] at counted
          rcases counted with ⟨⟨height_eq, round_eq, phase_eq, block_eq⟩, rfl⟩ | before
          · exact ⟨member, vote, List.mem_concat_self, rfl, height_eq, round_eq, phase_eq, block_eq⟩
          · exact earlier before

/-- The signers of a returned certificate are a quorum of members that sent votes for its block. -/
theorem Returns.signers {votes : List (Vote H)} {qc : QC H}
    (returned : Returns validatorSet votes qc) :
    validatorSet.hasQuorum qc.signers.ids.toFinset = true ∧
      ∀ signer ∈ qc.signers.ids.toFinset,
        SentFor validatorSet votes qc.height qc.round qc.phase qc.blockHash signer := by
  obtain ⟨before, vote, after, collector, rfl, added⟩ := returned
  obtain ⟨-, member, -, -, qc_eq⟩ := addVote_eq_ok.mp added
  split at qc_eq
  next quorum =>
    obtain rfl := Option.some.inj qc_eq
    rw [toFinset_certificate]
    refine ⟨quorum, fun signer mem => ?_⟩
    rcases Finset.mem_insert.mp mem with rfl | counted
    · exact ⟨member, vote, by simp, rfl, rfl, rfl, rfl, rfl⟩
    · exact (sentFor_of_mem_signersOf before counted).mono (List.subset_append_left _ _)
  next => cases qc_eq

theorem returns_of_quorum (before after : List (Vote H)) {vote : Vote H}
    (authentic : vote.validatorSetHash = validatorSet.validatorSetHash)
    (member : validatorSet.contains vote.voterId = true)
    (consistent : ∀ existing ∈ (feedAll validatorSet before).voteChoiceBySigner.get?
      (vote.height, vote.round, vote.phase, vote.voterId), existing = vote.blockHash)
    (quorum : validatorSet.hasQuorum (insert vote.voterId ((feedAll validatorSet before).signersOf
      vote.height vote.round vote.phase vote.blockHash)) = true) :
    Returns validatorSet (before ++ vote :: after) (certificate vote
      ((feedAll validatorSet before).signersOf vote.height vote.round vote.phase vote.blockHash)) :=
  ⟨before, vote, after, _, rfl,
    addVote_eq_ok.mpr ⟨authentic, member, consistent, rfl, (if_pos quorum).symm⟩⟩

/-- Two collectors never return certificates for two blocks of one phase when less than a third of
the members sends votes for two blocks of one phase. -/
theorem blockHash_eq_of_returned (validatorSet : ValidatorSet) (left right : List (Vote H))
    (few : (validatorSet.memberIds.filter (Equivocates (left ++ right))).card ≤
      (validatorSet.validators.length - 1) / 3)
    {qc other : QC H} (returned : Returns validatorSet left qc)
    (other_returned : Returns validatorSet right other) (height_eq : qc.height = other.height)
    (round_eq : qc.round = other.round) (phase_eq : qc.phase = other.phase) :
    qc.blockHash = other.blockHash := by
  obtain ⟨quorum, sent⟩ := returned.signers
  obtain ⟨other_quorum, other_sent⟩ := other_returned.signers
  have members : ∀ signer ∈ qc.signers.ids.toFinset, signer ∈ validatorSet.memberIds :=
    fun signer mem => ValidatorSet.contains_iff.mp (sent signer mem).member
  have other_members : ∀ signer ∈ other.signers.ids.toFinset, signer ∈ validatorSet.memberIds :=
    fun signer mem => ValidatorSet.contains_iff.mp (other_sent signer mem).member
  have bound : (validatorSet.memberIds ∩
      validatorSet.memberIds.filter (Equivocates (left ++ right))).card ≤
        (validatorSet.memberIds.card - 1) / 3 := by
    rw [Finset.inter_eq_right.mpr (Finset.filter_subset _ _), ValidatorSet.card_memberIds]
    exact few
  have left_quorum : (validatorSet.committee _ bound).IsQuorum qc.signers.ids.toFinset :=
    ValidatorSet.isQuorum_of_hasQuorum members quorum
  have right_quorum : (validatorSet.committee _ bound).IsQuorum other.signers.ids.toFinset :=
    ValidatorSet.isQuorum_of_hasQuorum other_members other_quorum
  -- Some member stands behind both certificates and sends votes for one block only.
  obtain ⟨member, mem, other_mem, honest⟩ := left_quorum.exists_honest_inter right_quorum
  obtain ⟨vote, vote_mem, voter_eq, vote_height, vote_round, vote_phase, vote_block⟩ :=
    (sent member mem).vote
  obtain ⟨rival, rival_mem, rival_eq, rival_height, rival_round, rival_phase, rival_block⟩ :=
    (other_sent member other_mem).vote
  by_contra different
  refine honest (Finset.mem_filter.mpr ⟨members member mem, vote, ?_, rival, ?_, voter_eq, rival_eq,
    ?_, ?_, ?_, ?_⟩)
  · exact List.mem_append_left _ vote_mem
  · exact List.mem_append_right _ rival_mem
  · rw [vote_height, rival_height, height_eq]
  · rw [vote_round, rival_round, round_eq]
  · rw [vote_phase, rival_phase, phase_eq]
  · rwa [vote_block, rival_block]

section Four

open SymbolicDigest (filled)
open CoreSystem (fourSet)

/-- A member's commit vote for one of two blocks. -/
def fourVote (voterId : String) (voterId_ne : voterId ≠ "") (block : ℕ) : Vote SymbolicDigest :=
  ⟨1, 0, 1, 1, voterId, fourSet.validatorSetHash, filled block, .commit, Nat.one_pos, Nat.one_pos,
    voterId_ne⟩

/-- The votes for two collectors; the last member votes for another block in the first one. -/
def fourVotes : List (Vote SymbolicDigest) × List (Vote SymbolicDigest) :=
  ([fourVote "d" (by decide) 2, fourVote "a" (by decide) 1, fourVote "b" (by decide) 1,
      fourVote "c" (by decide) 1],
    [fourVote "b" (by decide) 1, fourVote "c" (by decide) 1, fourVote "d" (by decide) 1])

/-- Both collectors return a certificate, and one member equivocates between them. -/
theorem blockHash_eq_of_returned_four :
    Equivocates (fourVotes.1 ++ fourVotes.2) "d" ∧ ∃ left right : QC SymbolicDigest,
      Returns fourSet fourVotes.1 left ∧ Returns fourSet fourVotes.2 right ∧
        left.blockHash = right.blockHash := by
  have returned : Returns fourSet fourVotes.1 _ :=
    returns_of_quorum (fourVotes.1.take 3) [] rfl rfl (by decide +kernel) (by decide +kernel)
  have other_returned : Returns fourSet fourVotes.2 _ :=
    returns_of_quorum (fourVotes.2.take 2) [] rfl rfl (by decide +kernel) (by decide +kernel)
  have few : (fourSet.memberIds.filter (Equivocates (fourVotes.1 ++ fourVotes.2))).card ≤
      (fourSet.validators.length - 1) / 3 := by decide +kernel
  exact ⟨by decide +kernel, _, _, returned, other_returned,
    blockHash_eq_of_returned fourSet _ _ few returned other_returned rfl rfl rfl⟩

end Four

end VoteCollector

end EZChain
