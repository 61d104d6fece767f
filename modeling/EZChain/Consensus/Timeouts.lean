import EZChain.Consensus.Sessions

/-!
# Timeout votes across restarts

The rounds that a validator has timed out are restored from the timeout log, which forgets the
rounds before the lock.  A round from the lock on is timed out once.
-/

namespace EZChain

namespace ConsensusCore

variable {H : Type} [DecidableEq H] [Crypto H]

omit [DecidableEq H] in
theorem emittedTimeout_eq_some {core : ConsensusCore H} {call : Call H} {vote : TimeoutVote H}
    (emits : core.emittedTimeout call = some vote) :
    call = .makeTimeoutVote vote.height vote.round ∧
      (vote.height, vote.round) ∉ core.localTimeoutRounds ∧
      (vote.highQcRound, vote.highQcHash) = core.reportedQc ∧
      vote.voterId = core.localValidatorId := by
  cases call with
  | makeTimeoutVote height round =>
      simp only [emittedTimeout, makeTimeoutVote] at emits
      split_ifs at emits with positive remembered
      · cases emits
      · obtain rfl := Option.some.inj emits
        exact ⟨rfl, remembered, rfl, rfl⟩
      · cases emits
  | _ => cases emits

omit [DecidableEq H] in
theorem exists_emittedTimeout (core : ConsensusCore H) {height round : ℕ}
    (positive : 0 < height ∧ 0 < round) (forgotten : (height, round) ∉ core.localTimeoutRounds) :
    ∃ vote, core.emittedTimeout (.makeTimeoutVote height round) = some vote := by
  simp only [emittedTimeout, makeTimeoutVote, dif_pos positive, if_neg forgotten]
  exact ⟨_, rfl⟩

end ConsensusCore

namespace Session

open ConsensusCore

variable {H : Type} [DecidableEq H] [Crypto H]

/-- Two timeout votes for one round report the same certificate. -/
def TimeoutsAgree (session : Session H) : Prop :=
  ∀ left ∈ session.timeoutVotes, ∀ right ∈ session.timeoutVotes,
    left.height = right.height → left.round = right.round →
      left.highQcRound = right.highQcRound ∧ left.highQcHash = right.highQcHash

/-- When a round before the lock is timed out again after it was forgotten, the highest certificate
is still the one that was reported. -/
def ForgottenUnchanged (session : Session H) (events : List (Event H)) : Prop :=
  ∀ before height round after,
    events = before ++ .call (.makeTimeoutVote height round) :: after →
      ∀ locked ∈ (session.run before).core.lockedQc, round < locked.round →
        (height, round) ∉ (session.run before).core.localTimeoutRounds →
          ∀ earlier ∈ (session.run before).timeoutVotes,
            earlier.height = height → earlier.round = round →
              (earlier.highQcRound, earlier.highQcHash) = (session.run before).core.reportedQc

/-- Every timed out round from the lock on is remembered and logged. -/
def Remembers (session : Session H) : Prop :=
  ∀ vote ∈ session.timeoutVotes,
    (∃ locked ∈ session.core.lockedQc, vote.round < locked.round) ∨
      (vote.height, vote.round) ∈ session.core.localTimeoutRounds ∧
        session.core.store.timeoutLog.get?
          (vote.height, vote.round, session.core.localValidatorId) ≠ none

theorem Remembers.step {session : Session H} (remembers : session.Remembers) (event : Event H) :
    (session.step event).Remembers := by
  cases event with
  | restart =>
      intro vote mem
      simp only [Session.step, lockedQc_restart, store_restart, localValidatorId_restart,
        mem_localTimeoutRounds_restart] at mem ⊢
      refine (remembers vote mem).imp_right fun remembered => ⟨?_, remembered.2⟩
      by_contra absent
      exact remembered.2 ((OrderedDict.get?_eq_none_iff _ _).mpr absent)
  | call call =>
      intro vote mem
      simp only [Session.step, List.mem_append, Option.mem_toList, lockedQc_perform,
        localTimeoutRounds_perform, timeoutLog_perform, (identity_perform _ call).1] at mem ⊢
      rcases mem with before | now
      · rcases remembers vote before with ⟨locked, mem_locked, older⟩ | ⟨remembered, logged⟩
        · obtain ⟨next, mem_next, le⟩ :=
            exists_mem_lockAfter (session.core.observed call) mem_locked
          exact .inl ⟨next, mem_next, older.trans_le le⟩
        · by_cases pruned : Prunes (session.core.observed call) vote.round
          · obtain ⟨qc, observes, precommit, older⟩ := pruned
            obtain ⟨next, mem_next, le⟩ :=
              exists_mem_lockAfter_self session.core.lockedQc precommit
            rw [← Option.mem_def.mp observes] at mem_next
            exact .inl ⟨next, mem_next, older.trans_le le⟩
          · refine .inr ⟨?_, ?_⟩
            · split
              · exact remembered
              · exact Finset.mem_insert_of_mem remembered
            · rw [if_neg pruned]
              split
              · exact logged
              · split
                · simp
                · exact logged
      · obtain ⟨rfl, -, -, voter⟩ := emittedTimeout_eq_some now
        have logs : session.core.loggedTimeout (.makeTimeoutVote vote.height vote.round) =
            some vote := now
        refine .inr ⟨?_, ?_⟩
        · rw [now]
          exact Finset.mem_insert_self _ _
        · rw [if_neg (by rintro ⟨qc, observes, -⟩; cases observes), logs]
          simp [voter]

theorem Remembers.run {session : Session H} (remembers : session.Remembers)
    (events : List (Event H)) : (session.run events).Remembers := by
  induction events using List.reverseRecOn with
  | nil => exact remembers
  | append_singleton events event induction =>
      rw [run_concat]
      exact induction.step event

theorem timeoutVotes_subset_run (session : Session H) (events : List (Event H)) :
    session.timeoutVotes ⊆ (session.run events).timeoutVotes := by
  induction events using List.reverseRecOn with
  | nil => exact fun _ => id
  | append_singleton events event induction =>
      rw [run_concat]
      cases event with
      | call call => exact fun vote mem => List.mem_append_left _ (induction mem)
      | restart => exact induction

theorem TimeoutsAgree.forgottenUnchanged {session : Session H} {events : List (Event H)}
    (agree : (session.run events).TimeoutsAgree) : session.ForgottenUnchanged events := by
  intro before height round after split locked mem older forgotten earlier mem_earlier
    height_eq round_eq
  subst height_eq round_eq
  obtain ⟨vote, emits⟩ := exists_emittedTimeout _ ⟨earlier.height_pos, earlier.round_pos⟩ forgotten
  obtain ⟨call_eq, -, reported, -⟩ := emittedTimeout_eq_some emits
  have now : vote ∈ ((session.run before).step
      (.call (.makeTimeoutVote earlier.height earlier.round))).timeoutVotes := by
    simp [step, emits]
  rw [split, List.append_cons, run_append, run_concat] at agree
  have still := timeoutVotes_subset_run ((session.run before).step
    (.call (.makeTimeoutVote earlier.height earlier.round))) after
  simp only [Call.makeTimeoutVote.injEq] at call_eq
  obtain ⟨round_eq, hash_eq⟩ := agree earlier (still (List.mem_append_left _ mem_earlier)) vote
    (still now) call_eq.1 call_eq.2
  rw [round_eq, hash_eq, reported]

end Session

end EZChain
