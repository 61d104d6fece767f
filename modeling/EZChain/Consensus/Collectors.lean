import EZChain.Consensus.ValidatorSet
import EZChain.Library.Checks
import EZChain.Library.OrderedDict

/-!
# Vote collectors

A collector counts the distinct signers of each target and returns a certificate whenever they are
a quorum.  A signer may not change its vote.
-/

namespace EZChain

open Checks

/-- `tuple(sorted(signers))`. -/
def Signers.ofFinset (signers : Finset String) (nonempty : signers.Nonempty) : Signers where
  ids := signers.sort
  nonempty := by
    rw [ne_eq, ← List.length_eq_zero_iff, Finset.length_sort, Finset.card_eq_zero]
    exact nonempty.ne_empty
  sorted := Finset.pairwise_sort signers (· ≤ ·)
  nodup := Finset.sort_nodup signers (· ≤ ·)

@[simp]
theorem Signers.toFinset_ofFinset (signers : Finset String) (nonempty : signers.Nonempty) :
    (Signers.ofFinset signers nonempty).ids.toFinset = signers :=
  Finset.sort_toFinset signers (· ≤ ·)

/-! ## Votes -/

structure VoteCollector (H : Type) where
  /-- The voters for a block in a phase of a round. -/
  votesByTarget : OrderedDict (ℕ × ℕ × VotePhase × H) (Finset String)
  /-- The block that a voter voted for in a phase of a round. -/
  voteChoiceBySigner : OrderedDict (ℕ × ℕ × VotePhase × String) H

namespace VoteCollector

variable {H : Type}

/-- A collector without votes. -/
def empty (H : Type) : VoteCollector H := ⟨∅, ∅⟩

variable [DecidableEq H]

/-- Signers of a target. -/
def signersOf (collector : VoteCollector H) (height round : ℕ) (phase : VotePhase)
    (blockHash : H) : Finset String :=
  (collector.votesByTarget.get? (height, round, phase, blockHash)).getD ∅

/-- `_restore_vote`: record a vote without checks. -/
def restoreVote (collector : VoteCollector H) (height round : ℕ) (phase : VotePhase)
    (voterId : String) (blockHash : H) : VoteCollector H where
  votesByTarget := collector.votesByTarget.set (height, round, phase, blockHash)
    (insert voterId (collector.signersOf height round phase blockHash))
  voteChoiceBySigner := collector.voteChoiceBySigner.set (height, round, phase, voterId) blockHash

/-- The certificate for the target of a vote. -/
def certificate (vote : Vote H) (others : Finset String) : QC H where
  chainId := vote.chainId
  epochId := vote.epochId
  height := vote.height
  round := vote.round
  phase := vote.phase
  validatorSetHash := vote.validatorSetHash
  blockHash := vote.blockHash
  signers := .ofFinset (insert vote.voterId others) (Finset.insert_nonempty _ _)
  height_pos := vote.height_pos
  round_pos := vote.round_pos

omit [DecidableEq H] in
/-- The signers of a certificate are the counted ones and the voter. -/
theorem toFinset_certificate (vote : Vote H) (others : Finset String) :
    (certificate vote others).signers.ids.toFinset = insert vote.voterId others :=
  Signers.toFinset_ofFinset _ (Finset.insert_nonempty _ _)

omit [DecidableEq H] in
theorem mem_certificate {vote : Vote H} {others : Finset String} {signer : String} :
    signer ∈ (certificate vote others).signers.ids ↔ signer = vote.voterId ∨ signer ∈ others := by
  rw [← List.mem_toFinset, toFinset_certificate, Finset.mem_insert]

/-- Count a vote; the certificate of its target is returned once its signers are a quorum. -/
def addVote [Crypto H] (collector : VoteCollector H) (vote : Vote H)
    (validatorSet : ValidatorSet) : Except String (Option (QC H) × VoteCollector H) := do
  require (vote.validatorSetHash = validatorSet.validatorSetHash) "vote validator_set_hash mismatch"
  require (validatorSet.contains vote.voterId = true) "vote signer is not in validator set"
  require (∀ existing ∈
      collector.voteChoiceBySigner.get? (vote.height, vote.round, vote.phase, vote.voterId),
    existing = vote.blockHash) "conflicting vote from same signer"
  let others := collector.signersOf vote.height vote.round vote.phase vote.blockHash
  let counted :=
    collector.restoreVote vote.height vote.round vote.phase vote.voterId vote.blockHash
  if validatorSet.hasQuorum (insert vote.voterId others) then
    pure (some (certificate vote others), counted)
  else
    pure (none, counted)

theorem signersOf_empty (height round : ℕ) (phase : VotePhase) (blockHash : H) :
    (empty H).signersOf height round phase blockHash = ∅ := rfl

theorem mem_signersOf_restoreVote {collector : VoteCollector H} {height round : ℕ}
    {phase : VotePhase} {voterId : String} {blockHash : H} {height' round' : ℕ}
    {phase' : VotePhase} {blockHash' : H} {signer : String} :
    signer ∈ (collector.restoreVote height round phase voterId blockHash).signersOf height' round'
        phase' blockHash' ↔
      ((height, round, phase, blockHash) = (height', round', phase', blockHash') ∧
          signer = voterId) ∨
        signer ∈ collector.signersOf height' round' phase' blockHash' := by
  by_cases same : (height, round, phase, blockHash) = (height', round', phase', blockHash')
  · obtain ⟨rfl, rfl, rfl, rfl⟩ := by simpa using same
    simp [signersOf, restoreVote]
  · simp only [signersOf, restoreVote, OrderedDict.get?_set_of_ne _ same, same, false_and,
      false_or]

/-- A counted vote is authentic, and so is every signer of a returned certificate. -/
theorem addVote_eq_ok [Crypto H] {collector counted : VoteCollector H} {vote : Vote H}
    {validatorSet : ValidatorSet} {qc : Option (QC H)} :
    collector.addVote vote validatorSet = .ok (qc, counted) ↔
      vote.validatorSetHash = validatorSet.validatorSetHash ∧
        validatorSet.contains vote.voterId = true ∧
        (∀ existing ∈ collector.voteChoiceBySigner.get?
            (vote.height, vote.round, vote.phase, vote.voterId), existing = vote.blockHash) ∧
        counted =
          collector.restoreVote vote.height vote.round vote.phase vote.voterId vote.blockHash ∧
        qc = if validatorSet.hasQuorum (insert vote.voterId
            (collector.signersOf vote.height vote.round vote.phase vote.blockHash)) = true
          then some (certificate vote
            (collector.signersOf vote.height vote.round vote.phase vote.blockHash))
          else none := by
  simp only [addVote, bind_eq_ok, require_eq_ok, exists_unit]
  split <;> simp only [pure_eq_ok, Prod.mk.injEq] <;> grind

end VoteCollector

/-! ## Timeout votes -/

/-- Round and hash of the highest certificate that a validator reports. -/
abbrev HighQc (H : Type) := Option ℕ × Option H

structure TimeoutVoteCollector (H : Type) where
  /-- The voters for the timeout of a round. -/
  signersByRound : OrderedDict (ℕ × ℕ) (Finset String)
  /-- What a voter reported with its timeout vote. -/
  timeoutChoiceBySigner : OrderedDict (ℕ × ℕ × String) (HighQc H)
  /-- The highest certificate that was reported for a round. -/
  highestQcByRound : OrderedDict (ℕ × ℕ) (HighQc H)

namespace TimeoutVoteCollector

variable {H : Type}

/-- A collector without votes. -/
def empty (H : Type) : TimeoutVoteCollector H := ⟨∅, ∅, ∅⟩

/-- `_is_higher_qc`: an absent round counts as -1, and equal rounds are ordered by the hash. -/
def isHigherQc [Crypto H] (candidate current : HighQc H) : Bool :=
  let candidateRound : ℤ := candidate.1.elim (-1) fun round => round
  let currentRound : ℤ := current.1.elim (-1) fun round => round
  if candidateRound ≠ currentRound then
    currentRound < candidateRound
  else
    match candidate.2, current.2 with
    | none, _ => false
    | some _, none => true
    | some candidateHash, some currentHash =>
        (Crypto.digestBytes currentHash).bytes < (Crypto.digestBytes candidateHash).bytes

variable [Crypto H]

/-- `_restore_timeout`: record a timeout vote without checks. -/
def restoreTimeout (collector : TimeoutVoteCollector H) (height round : ℕ) (voterId : String)
    (highQc : HighQc H) : TimeoutVoteCollector H where
  signersByRound := collector.signersByRound.set (height, round)
    (insert voterId ((collector.signersByRound.get? (height, round)).getD ∅))
  timeoutChoiceBySigner := collector.timeoutChoiceBySigner.set (height, round, voterId) highQc
  highestQcByRound :=
    match collector.highestQcByRound.get? (height, round) with
    | none => collector.highestQcByRound.set (height, round) highQc
    | some current =>
        if isHigherQc highQc current then
          collector.highestQcByRound.set (height, round) highQc
        else
          collector.highestQcByRound

variable [DecidableEq H]

/-- Count a timeout vote; a certificate is returned once the signers of its round are a quorum. -/
def addTimeoutVote (collector : TimeoutVoteCollector H) (timeoutVote : TimeoutVote H)
    (validatorSet : ValidatorSet) : Except String (Option (TC H) × TimeoutVoteCollector H) := do
  let highQc := (timeoutVote.highQcRound, timeoutVote.highQcHash)
  require (timeoutVote.validatorSetHash = validatorSet.validatorSetHash)
    "timeout vote validator_set_hash mismatch"
  require (validatorSet.contains timeoutVote.voterId = true)
    "timeout vote signer is not in validator set"
  require (∀ existing ∈ collector.timeoutChoiceBySigner.get?
      (timeoutVote.height, timeoutVote.round, timeoutVote.voterId), existing = highQc)
    "conflicting timeout vote from same signer"
  let others := (collector.signersByRound.get? (timeoutVote.height, timeoutVote.round)).getD ∅
  let counted :=
    collector.restoreTimeout timeoutVote.height timeoutVote.round timeoutVote.voterId highQc
  let highest :=
    (counted.highestQcByRound.get? (timeoutVote.height, timeoutVote.round)).getD (none, none)
  if validatorSet.hasQuorum (insert timeoutVote.voterId others) then
    pure
      (some
        { chainId := timeoutVote.chainId
          epochId := timeoutVote.epochId
          height := timeoutVote.height
          round := timeoutVote.round
          validatorSetHash := timeoutVote.validatorSetHash
          signers :=
            .ofFinset (insert timeoutVote.voterId others) (Finset.insert_nonempty _ _)
          highQcRound := highest.1
          highQcHash := highest.2
          height_pos := timeoutVote.height_pos
          round_pos := timeoutVote.round_pos },
        counted)
  else
    pure (none, counted)

/-- Signers of a round. -/
def signersOf (collector : TimeoutVoteCollector H) (height round : ℕ) : Finset String :=
  (collector.signersByRound.get? (height, round)).getD ∅

omit [DecidableEq H] in
theorem mem_signersOf_restoreTimeout {collector : TimeoutVoteCollector H} {height round : ℕ}
    {voterId : String} {highQc : HighQc H} {height' round' : ℕ} {signer : String} :
    signer ∈ (collector.restoreTimeout height round voterId highQc).signersOf height' round' ↔
      ((height, round) = (height', round') ∧ signer = voterId) ∨
        signer ∈ collector.signersOf height' round' := by
  by_cases same : (height, round) = (height', round')
  · obtain ⟨rfl, rfl⟩ := by simpa using same
    simp [signersOf, restoreTimeout]
  · simp only [signersOf, restoreTimeout, OrderedDict.get?_set_of_ne _ same, same, false_and,
      false_or]

/-- The fields that a returned timeout certificate takes from the vote that completed it. -/
theorem addTimeoutVote_eq_ok {collector counted : TimeoutVoteCollector H}
    {timeoutVote : TimeoutVote H} {validatorSet : ValidatorSet} {result : Option (TC H)}
    (added : collector.addTimeoutVote timeoutVote validatorSet = .ok (result, counted)) :
    timeoutVote.validatorSetHash = validatorSet.validatorSetHash ∧
      validatorSet.contains timeoutVote.voterId = true ∧
      counted = collector.restoreTimeout timeoutVote.height timeoutVote.round timeoutVote.voterId
        (timeoutVote.highQcRound, timeoutVote.highQcHash) ∧
      ∀ tc ∈ result, tc.chainId = timeoutVote.chainId ∧ tc.epochId = timeoutVote.epochId ∧
        tc.validatorSetHash = timeoutVote.validatorSetHash ∧
        tc.signers.ids.toFinset = insert timeoutVote.voterId
          (collector.signersOf timeoutVote.height timeoutVote.round) ∧
        validatorSet.hasQuorum (insert timeoutVote.voterId
          (collector.signersOf timeoutVote.height timeoutVote.round)) = true := by
  simp only [addTimeoutVote, bind_eq_ok, require_eq_ok, exists_unit] at added
  obtain ⟨set, member, -, outcome⟩ := added
  split at outcome
  next quorum =>
    simp only [pure_eq_ok, Prod.mk.injEq] at outcome
    obtain ⟨rfl, rfl⟩ := outcome
    refine ⟨set, member, rfl, fun tc mem => ?_⟩
    obtain rfl := Option.mem_some_iff.mp mem
    exact ⟨rfl, rfl, rfl, Signers.toFinset_ofFinset _ (Finset.insert_nonempty _ _), quorum⟩
  next =>
    simp only [pure_eq_ok, Prod.mk.injEq] at outcome
    obtain ⟨rfl, rfl⟩ := outcome
    exact ⟨set, member, rfl, forall_mem_none _⟩

end TimeoutVoteCollector

end EZChain
