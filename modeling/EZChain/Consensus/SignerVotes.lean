import EZChain.Consensus.Sessions

/-!
# Signers of a certificate

The collector counts votes by height, round, phase and block, and a certificate takes its chain and
epoch from the vote that completes the quorum.  It says what its signers voted for when the votes
that were counted for its target name one chain and epoch.
-/

namespace EZChain

variable {H : Type} [DecidableEq H] [Crypto H]

/-- The checks of `add_vote`. -/
structure VoteCollector.Admits (collector : VoteCollector H) (vote : Vote H)
    (validatorSet : ValidatorSet) : Prop where
  set : vote.validatorSetHash = validatorSet.validatorSetHash
  member : validatorSet.contains vote.voterId = true
  consistent : ∀ existing ∈ collector.voteChoiceBySigner.get?
    (vote.height, vote.round, vote.phase, vote.voterId), existing = vote.blockHash

/-- The signers counted for the target of a vote. -/
def VoteCollector.others (collector : VoteCollector H) (vote : Vote H) : Finset String :=
  collector.signersOf vote.height vote.round vote.phase vote.blockHash

/-- The votes of the signers that a certificate lists, with all the fields of the certificate. -/
structure SignersVoted (validatorSet : ValidatorSet) (accepted : List (Vote H)) (qc : QC H) :
    Prop where
  voted : ∀ signer ∈ qc.signers.ids, ∃ vote ∈ accepted, vote.voterId = signer ∧
    vote.chainId = qc.chainId ∧ vote.epochId = qc.epochId ∧ vote.height = qc.height ∧
    vote.round = qc.round ∧ vote.phase = qc.phase ∧ vote.blockHash = qc.blockHash ∧
    vote.validatorSetHash = qc.validatorSetHash
  members : ∀ signer ∈ qc.signers.ids, validatorSet.contains signer = true
  distinct : qc.signers.ids.Nodup
  quorum : validatorSet.quorumSize ≤ qc.signers.ids.length

namespace ConsensusCore

/-- What `accept_vote` returns for a vote that passes the checks. -/
theorem acceptVote_eq_ok {core : ConsensusCore H} {vote : Vote H} {result : Option (QC H)} :
    (core.acceptVote vote).1 = .ok result ↔
      core.voteCollector.Admits vote core.validatorSet ∧
        result =
          if core.validatorSet.hasQuorum (insert vote.voterId (core.voteCollector.others vote)) =
            true
          then some (VoteCollector.certificate vote (core.voteCollector.others vote))
          else none := by
  constructor
  · intro returned
    cases added : core.voteCollector.addVote vote core.validatorSet with
    | error message => simp [acceptVote, added] at returned
    | ok counted =>
        obtain ⟨set, member, consistent, -, formed⟩ := VoteCollector.addVote_eq_ok.mp added
        simp only [acceptVote, added, Except.ok.injEq] at returned
        exact ⟨⟨set, member, consistent⟩, returned.symm.trans formed⟩
  · rintro ⟨⟨set, member, consistent⟩, rfl⟩
    rw [acceptVote, VoteCollector.addVote_eq_ok.mpr ⟨set, member, consistent, rfl, rfl⟩]
    rfl

theorem acceptedVote_eq_some {core : ConsensusCore H} {call : Call H} {vote : Vote H} :
    core.acceptedVote call = some vote ↔
      call = .acceptVote vote ∧ core.voteCollector.Admits vote core.validatorSet := by
  cases call with
  | acceptVote given =>
      simp only [acceptedVote, Call.acceptVote.injEq]
      split
      next message refused =>
        apply iff_of_false nofun
        rintro ⟨rfl, admits⟩
        rw [acceptVote_eq_ok.mpr ⟨admits, rfl⟩] at refused
        cases refused
      next result returned =>
        rw [Option.some_inj]
        refine (and_iff_left_of_imp ?_).symm
        rintro rfl
        exact (acceptVote_eq_ok.mp returned).1
  | _ => simp [acceptedVote]

/-- An admitted vote is counted. -/
theorem voteCollector_acceptVote {core : ConsensusCore H} {vote : Vote H}
    (admits : core.voteCollector.Admits vote core.validatorSet) :
    (core.perform (.acceptVote vote)).voteCollector = core.voteCollector.restoreVote vote.height
      vote.round vote.phase vote.voterId vote.blockHash := by
  rw [perform, acceptVote,
    VoteCollector.addVote_eq_ok.mpr ⟨admits.set, admits.member, admits.consistent, rfl, rfl⟩]
  exact voteCollector_observeQc _ _

end ConsensusCore

namespace Session

open Checks ConsensusCore

/-- The session only accepts votes and restarts. -/
def OnlyVotes (events : List (Event H)) : Prop :=
  ∀ event ∈ events, event = .restart ∨ ∃ vote, event = .call (.acceptVote vote)

/-- Whenever a certificate is returned, its signers had votes with its fields accepted. -/
def CertificatesMean (session : Session H) (events : List (Event H)) : Prop :=
  ∀ before vote after, events = before ++ .call (.acceptVote vote) :: after →
    ∀ qc, ((session.run before).core.acceptVote vote).1 = .ok (some qc) →
      SignersVoted session.core.validatorSet
        (session.run (before ++ [.call (.acceptVote vote)])).accepted qc

/-- When an admitted vote completes a quorum, all other counted signers have had a vote for its
target accepted in its chain and epoch. -/
def SignersOnChain (session : Session H) (events : List (Event H)) : Prop :=
  ∀ before vote after, events = before ++ .call (.acceptVote vote) :: after →
    let core := (session.run before).core
    core.voteCollector.Admits vote core.validatorSet →
      core.validatorSet.hasQuorum (insert vote.voterId (core.voteCollector.others vote)) = true →
        ∀ signer ∈ core.voteCollector.others vote, signer ≠ vote.voterId →
          ∃ earlier ∈ (session.run before).accepted, earlier.voterId = signer ∧
            earlier.height = vote.height ∧ earlier.round = vote.round ∧
            earlier.phase = vote.phase ∧ earlier.blockHash = vote.blockHash ∧
            earlier.chainId = vote.chainId ∧ earlier.epochId = vote.epochId

/-- Counted and logged votes were accepted, and accepted votes are of members. -/
structure CountsAccepted (session : Session H) : Prop where
  counted : ∀ height round phase blockHash,
    ∀ signer ∈ session.core.voteCollector.signersOf height round phase blockHash,
      CastFor session.accepted signer height round phase blockHash
  logged : ∀ height round phase voterId blockHash,
    session.core.store.voteLog.get? (height, round, phase, voterId) = some blockHash →
      CastFor session.accepted voterId height round phase blockHash
  admitted : ∀ vote ∈ session.accepted,
    vote.validatorSetHash = session.core.validatorSet.validatorSetHash ∧
      session.core.validatorSet.contains vote.voterId = true

theorem countsAccepted_fresh (chainId epochId : ℕ) {localValidatorId : String}
    {validatorSet : ValidatorSet} (member : validatorSet.contains localValidatorId = true) :
    (initial (fresh (H := H) chainId epochId localValidatorId validatorSet
      member)).CountsAccepted where
  counted height round phase blockHash signer mem := by
    simp [initial, fresh, VoteCollector.signersOf_empty] at mem
  logged := nofun
  admitted := nofun

theorem CountsAccepted.step {session : Session H} (counts : session.CountsAccepted)
    {event : Event H} (inbound : event = .restart ∨ ∃ vote, event = .call (.acceptVote vote)) :
    (session.step event).CountsAccepted := by
  rcases inbound with rfl | ⟨vote, rfl⟩
  · constructor
    case counted =>
      intro height round phase blockHash signer mem
      exact counts.logged height round phase signer blockHash
        ((mem_signersOf_restart session.core).mp mem)
    case logged =>
      simp only [Session.step, store_restart]
      exact counts.logged
    case admitted =>
      simp only [Session.step, validatorSet_restart]
      exact counts.admitted
  · have subset : session.accepted ⊆ (session.step (.call (.acceptVote vote))).accepted :=
      List.subset_append_left _ _
    -- The vote is counted and logged only when it is accepted.
    have accepts : ∀ found, session.core.acceptedVote (.acceptVote vote) = some found →
        CastFor (session.step (.call (.acceptVote vote))).accepted found.voterId found.height
          found.round found.phase found.blockHash := by
      intro found accepted
      exact ⟨found, List.mem_append_right _ (Option.mem_toList.mpr accepted), rfl, rfl, rfl, rfl,
        rfl⟩
    constructor
    case counted =>
      intro height round phase blockHash signer mem
      cases added : session.core.voteCollector.addVote vote session.core.validatorSet with
      | error message =>
          simp only [Session.step, perform, acceptVote, added] at mem
          exact (counts.counted height round phase blockHash signer mem).mono subset
      | ok result =>
          rcases mem_signersOf_perform session.core _ mem with
            before | ⟨_, ⟨⟩, -, rfl, rfl, rfl, rfl, rfl⟩
          · exact (counts.counted height round phase blockHash signer before).mono subset
          · apply accepts vote
            simp only [acceptedVote, acceptVote, added]
    case logged =>
      intro height round phase voterId blockHash logged
      simp only [Session.step, voteLog_perform] at logged
      split_ifs at logged
      split at logged
      · exact (counts.logged height round phase voterId blockHash logged).mono subset
      next found accepted =>
        split_ifs at logged with same
        · simp only [Prod.mk.injEq] at same
          obtain ⟨rfl, rfl, rfl, rfl⟩ := same
          exact Option.some.inj logged ▸ accepts found accepted
        · exact (counts.logged height round phase voterId blockHash logged).mono subset
    case admitted =>
      intro found mem
      simp only [Session.step, List.mem_append, Option.mem_toList,
        (identity_perform session.core (.acceptVote vote)).2.1] at mem ⊢
      rcases mem with before | now
      · exact counts.admitted found before
      · obtain ⟨-, admits⟩ := acceptedVote_eq_some.mp now
        exact ⟨admits.set, admits.member⟩

theorem validatorSet_step (session : Session H) (event : Event H) :
    (session.step event).core.validatorSet = session.core.validatorSet := by
  cases event with
  | call call => exact (identity_perform session.core call).2.1
  | restart => exact validatorSet_restart session.core

theorem validatorSet_run (session : Session H) (events : List (Event H)) :
    (session.run events).core.validatorSet = session.core.validatorSet := by
  induction events using List.reverseRecOn with
  | nil => rfl
  | append_singleton events event induction => rw [run_concat, validatorSet_step, induction]

theorem CountsAccepted.run {session : Session H} (counts : session.CountsAccepted)
    {events : List (Event H)} (inbound : OnlyVotes events) :
    (session.run events).CountsAccepted := by
  induction events using List.reverseRecOn with
  | nil => exact counts
  | append_singleton events event induction =>
      rw [run_concat]
      exact (induction fun event mem => inbound event (List.mem_append_left _ mem)).step
        (inbound event List.mem_concat_self)

theorem CertificatesMean.signersOnChain {session : Session H} {events : List (Event H)}
    (means : session.CertificatesMean events) : session.SignersOnChain events := by
  intro before vote after split core admits quorum signer counted other
  have returned := acceptVote_eq_ok.mpr ⟨admits, rfl⟩
  rw [if_pos quorum] at returned
  obtain ⟨earlier, mem, voter, chain, epoch, height, round, phase, block, -⟩ :=
    (means before vote after split _ returned).voted signer
      (VoteCollector.mem_certificate.mpr (.inr counted))
  rw [run_concat] at mem
  simp only [step, List.mem_append, Option.mem_toList] at mem
  rcases mem with mem | now
  · exact ⟨earlier, mem, voter, height, round, phase, block, chain, epoch⟩
  · obtain ⟨⟨⟩, -⟩ := acceptedVote_eq_some.mp now
    exact absurd voter.symm other

/-- Certificates say what their signers voted for exactly when the counted votes of a completed
quorum name the chain and epoch of the vote that completes it. -/
theorem certificatesMean_iff (chainId epochId : ℕ) {localValidatorId : String}
    {validatorSet : ValidatorSet} (member : validatorSet.contains localValidatorId = true)
    (events : List (Event H)) (inbound : OnlyVotes events) :
    (initial (fresh chainId epochId localValidatorId validatorSet member)).CertificatesMean events ↔
      (initial (fresh chainId epochId localValidatorId validatorSet member)).SignersOnChain
        events := by
  generalize start : initial (fresh (H := H) chainId epochId localValidatorId validatorSet member) =
    session
  have counts : session.CountsAccepted := start ▸ countsAccepted_fresh chainId epochId member
  constructor
  · exact CertificatesMean.signersOnChain
  · intro onChain before vote after split qc returned
    have counted := counts.run fun event mem => inbound event (split ▸ List.mem_append_left _ mem)
    have counted_after := counted.step (.inr ⟨vote, rfl⟩)
    obtain ⟨admits, formed⟩ := acceptVote_eq_ok.mp returned
    split_ifs at formed with quorum
    obtain rfl := Option.some.inj formed
    have members : ∀ signer ∈ insert vote.voterId
        ((session.run before).core.voteCollector.others vote),
        (session.run before).core.validatorSet.contains signer = true := by
      intro signer mem
      rcases Finset.mem_insert.mp mem with rfl | others
      · exact admits.member
      · obtain ⟨earlier, accepted, rfl, -⟩ := counted.counted _ _ _ _ signer others
        exact (counted.admitted earlier accepted).2
    have accepts : vote ∈ (session.run (before ++ [.call (.acceptVote vote)])).accepted := by
      rw [run_concat]
      exact List.mem_append_right _ (Option.mem_toList.mpr (acceptedVote_eq_some.mpr ⟨rfl, admits⟩))
    constructor
    case voted =>
      intro signer mem
      rw [VoteCollector.mem_certificate] at mem
      by_cases completes : signer = vote.voterId
      · exact ⟨vote, accepts, completes.symm, rfl, rfl, rfl, rfl, rfl, rfl, rfl⟩
      · obtain ⟨earlier, accepted, voter, height, round, phase, block, chain, epoch⟩ :=
          onChain before vote after split admits quorum signer (mem.resolve_left completes)
            completes
        refine ⟨earlier, ?_, voter, chain, epoch, height, round, phase, block, ?_⟩
        · rw [run_concat]
          exact List.mem_append_left _ accepted
        · exact (counted.admitted earlier accepted).1.trans admits.set.symm
    case members =>
      intro signer mem
      rw [← validatorSet_run session before]
      exact members signer (Finset.mem_insert.mpr (VoteCollector.mem_certificate.mp mem))
    case distinct => exact Signers.nodup _
    case quorum =>
      rw [ValidatorSet.hasQuorum_iff, Finset.filter_true_of_mem members,
        ← VoteCollector.toFinset_certificate, List.toFinset_card_of_nodup (Signers.nodup _),
        validatorSet_run] at quorum
      exact quorum

/-! ### Two validators -/

theorem b_ne : "b" ≠ "" := by simp

/-- The validator set of two members. -/
def pairSet : ValidatorSet where
  validators :=
    [⟨"a", [1], [1], 1, CoreSystem.a_ne, CoreSystem.key_ne, CoreSystem.key_ne, Nat.one_pos⟩,
      ⟨"b", [1], [1], 1, b_ne, CoreSystem.key_ne, CoreSystem.key_ne, Nat.one_pos⟩]
  nonempty := by simp
  sorted := by simp
  nodup := by simp
  equalWeight := by simp

theorem pairSet_contains : pairSet.contains "a" = true := rfl

/-- A commit vote of a member for one block, with the given chain. -/
def pairVote (chainId : ℕ) (voterId : String) (voterId_ne : voterId ≠ "") : Vote SymbolicDigest :=
  ⟨chainId, 0, 1, 1, voterId, pairSet.validatorSetHash, .filled 1, .commit, Nat.one_pos,
    Nat.one_pos, voterId_ne⟩

/-- A new core admits the first vote. -/
theorem pairVote_admitted (chainId : ℕ) :
    (fresh 1 0 "a" pairSet pairSet_contains).voteCollector.Admits
      (pairVote chainId "a" (by simp)) pairSet :=
  ⟨rfl, rfl, nofun⟩

/-- A vote of one chain completes a certificate that lists the voter of another chain. -/
theorem not_certificatesMean_chains :
    ¬ (initial (fresh 1 0 "a" pairSet pairSet_contains)).CertificatesMean
      [.call (.acceptVote (pairVote 1 "a" (by simp))),
        .call (.acceptVote (pairVote 2 "b" (by simp)))] := by
  intro means
  have accepted := acceptedVote_eq_some.mpr ⟨rfl, pairVote_admitted 1⟩
  have collector := voteCollector_acceptVote (pairVote_admitted 1)
  have set_eq := (identity_perform (fresh 1 0 "a" pairSet pairSet_contains)
    (.acceptVote (pairVote 1 "a" (by simp)))).2.1
  have others : ((fresh 1 0 "a" pairSet pairSet_contains).perform
      (.acceptVote (pairVote 1 "a" (by simp)))).voteCollector.others (pairVote 2 "b" (by simp)) =
        {"a"} := by
    ext signer
    rw [collector, VoteCollector.others, VoteCollector.mem_signersOf_restoreVote]
    simp [pairVote, fresh, VoteCollector.signersOf_empty]
  have voted := means.signersOnChain [_] _ [] rfl
  simp only [run, List.foldl_cons, List.foldl_nil, step, initial, others, set_eq, accepted] at voted
  obtain ⟨earlier, mem, -, -, -, -, -, chain, -⟩ := voted
    ⟨rfl, rfl, by rw [collector]; exact forall_mem_none _⟩ rfl "a" (Finset.mem_singleton_self _)
    (by simp [pairVote])
  obtain rfl := List.mem_singleton.mp mem
  cases chain

/-- Two votes of one chain complete a certificate, also across a restart. -/
theorem certificatesMean_restarted :
    (initial (fresh 1 0 "a" pairSet pairSet_contains)).CertificatesMean
      [.call (.acceptVote (pairVote 1 "a" (by simp))), .restart,
        .call (.acceptVote (pairVote 1 "b" (by simp)))] := by
  apply (certificatesMean_iff 1 0 pairSet_contains _ (by simp [OnlyVotes])).mpr
  have accepted := acceptedVote_eq_some.mpr ⟨rfl, pairVote_admitted 1⟩
  intro before vote after split core admits quorum signer counted other
  rcases before with _ | ⟨first, _ | ⟨second, _ | ⟨third, rest⟩⟩⟩
  · cases counted
  · simp at split
  · simp only [List.cons_append, List.nil_append, List.cons.injEq, Event.call.injEq,
      Call.acceptVote.injEq] at split
    obtain ⟨rfl, rfl, rfl, -⟩ := split
    obtain ⟨earlier, mem, voter, height, round, phase, block⟩ :=
      ((countsAccepted_fresh 1 0 pairSet_contains).run (by simp [OnlyVotes])).counted _ _ _ _ signer
        counted
    refine ⟨earlier, mem, voter, height, round, phase, block, ?_⟩
    simp only [run, List.foldl_cons, List.foldl_nil, step, initial, accepted] at mem
    obtain rfl := List.mem_singleton.mp mem
    exact ⟨rfl, rfl⟩
  · simp at split

end Session

end EZChain
