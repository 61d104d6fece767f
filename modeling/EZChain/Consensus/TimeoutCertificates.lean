import EZChain.Consensus.Restart
import EZChain.Library.Runs

/-!
# Timeout certificates

A collector tallies the accepted timeout votes of a round: who has voted, what each of them has
reported, and the highest certificate among the reports.  The tally, and with it every certificate,
depends only on the set of accepted votes, and the timeout log determines it.
-/

namespace EZChain

open Checks

/-! ## Order of the reported certificates -/

namespace HighQc

variable {H : Type} [Crypto H]

/-- An absent round counts as -1. -/
def roundKey (highQc : HighQc H) : ℤ := highQc.1.elim (-1) fun round => round

/-- An absent hash comes first; others are ordered by their bytes. -/
def HashLe : Option H → Option H → Prop
  | none, _ => True
  | some _, none => False
  | some left, some right => (Crypto.digestBytes left).bytes ≤ (Crypto.digestBytes right).bytes

/-- Lexicographic order of rounds and hashes. -/
def Le (left right : HighQc H) : Prop :=
  left.roundKey < right.roundKey ∨ left.roundKey = right.roundKey ∧ HashLe left.2 right.2

omit [Crypto H] in
theorem fst_eq_of_roundKey {left right : HighQc H} (same : left.roundKey = right.roundKey) :
    left.1 = right.1 := by
  obtain ⟨left_round, _⟩ := left
  obtain ⟨right_round, _⟩ := right
  simp only [roundKey] at same
  -- A missing round has the key -1, which no round has.
  cases left_round with
  | none =>
      cases right_round with
      | none => rfl
      | some right_round =>
          simp only [Option.elim] at same
          omega
  | some left_round =>
      cases right_round with
      | none =>
          simp only [Option.elim] at same
          omega
      | some right_round => exact congrArg some (Int.ofNat.inj same)

theorem HashLe.trans {first second third : Option H} (earlier : HashLe first second)
    (later : HashLe second third) : HashLe first third := by
  cases first with
  | none => trivial
  | some first =>
      cases second with
      | none => exact earlier.elim
      | some second =>
          cases third with
          | none => exact later.elim
          | some third => exact Std.le_trans earlier later

theorem Le.trans {first second third : HighQc H} (earlier : first.Le second)
    (later : second.Le third) : first.Le third := by
  rcases earlier with below | ⟨same, hash_le⟩
  · rcases later with next_below | ⟨next_same, _⟩
    · exact .inl (below.trans next_below)
    · exact .inl (next_same ▸ below)
  · rcases later with next_below | ⟨next_same, next_le⟩
    · exact .inl (same ▸ next_below)
    · exact .inr ⟨same.trans next_same, hash_le.trans next_le⟩

theorem Le.refl (highQc : HighQc H) : highQc.Le highQc := by
  refine .inr ⟨rfl, ?_⟩
  cases highQc.2 with
  | none => trivial
  | some hash => exact Std.le_refl _

/-- Two reports below each other are the same when their hashes are told apart by their bytes. -/
theorem Le.antisymm {left right : HighQc H} (below : left.Le right) (above : right.Le left)
    (apart : ∀ left_hash ∈ left.2, ∀ right_hash ∈ right.2,
      Crypto.digestBytes left_hash = Crypto.digestBytes right_hash → left_hash = right_hash) :
    left = right := by
  rcases below with below | ⟨same, hash_below⟩
  · rcases above with above | ⟨same, _⟩
    · exact absurd above below.asymm
    · exact absurd same.symm below.ne
  · have hash_above : HashLe right.2 left.2 :=
      above.elim (fun above => absurd same above.ne') And.right
    apply Prod.ext (fst_eq_of_roundKey same)
    cases left_eq : left.2 with
    | none =>
        rw [left_eq] at hash_above
        cases right_eq : right.2 with
        | none => rfl
        | some right_hash =>
            rw [right_eq] at hash_above
            exact hash_above.elim
    | some left_hash =>
        rw [left_eq] at hash_below hash_above
        cases right_eq : right.2 with
        | none =>
            rw [right_eq] at hash_below
            exact hash_below.elim
        | some right_hash =>
            rw [right_eq] at hash_below hash_above
            have bytes_eq : (Crypto.digestBytes left_hash).bytes =
                (Crypto.digestBytes right_hash).bytes := Std.le_antisymm hash_below hash_above
            have digests_eq : Crypto.digestBytes left_hash = Crypto.digestBytes right_hash := by
              cases left_digest : Crypto.digestBytes left_hash
              cases right_digest : Crypto.digestBytes right_hash
              simpa [left_digest, right_digest] using bytes_eq
            rw [apart left_hash left_eq right_hash right_eq digests_eq]

/-- A report is higher than another exactly when it is not below it. -/
theorem isHigherQc_eq_false_iff {candidate current : HighQc H} :
    TimeoutVoteCollector.isHigherQc candidate current = false ↔ candidate.Le current := by
  have rounds : TimeoutVoteCollector.isHigherQc candidate current =
      if candidate.roundKey ≠ current.roundKey then decide (current.roundKey < candidate.roundKey)
      else match candidate.2, current.2 with
        | none, _ => false
        | some _, none => true
        | some candidateHash, some currentHash =>
            (Crypto.digestBytes currentHash).bytes < (Crypto.digestBytes candidateHash).bytes := rfl
  rw [rounds, Le]
  by_cases same : candidate.roundKey = current.roundKey
  · rw [if_neg (not_not.mpr same)]
    simp only [same, lt_irrefl, false_or, true_and]
    cases candidate.2 with
    | none => simp [HashLe]
    | some candidate_hash =>
        cases current.2 with
        | none => simp [HashLe]
        | some current_hash => simp [HashLe]
  · rw [if_pos same, decide_eq_false_iff_not, not_lt]
    simp only [same, false_and, or_false]
    exact ⟨fun le => lt_of_le_of_ne le same, le_of_lt⟩

/-- Of two reports one is below the other. -/
theorem Le.total (left right : HighQc H) : left.Le right ∨ right.Le left := by
  rcases lt_trichotomy left.roundKey right.roundKey with below | same | above
  · exact .inl (.inl below)
  · cases left_eq : left.2 with
    | none => exact .inl (.inr ⟨same, left_eq ▸ trivial⟩)
    | some left_hash =>
        cases right_eq : right.2 with
        | none => exact .inr (.inr ⟨same.symm, right_eq ▸ trivial⟩)
        | some right_hash =>
            rcases Std.le_total (a := (Crypto.digestBytes left_hash).bytes)
              (b := (Crypto.digestBytes right_hash).bytes) with below | above
            · exact .inl (.inr ⟨same, by rw [left_eq, right_eq]; exact below⟩)
            · exact .inr (.inr ⟨same.symm, by rw [left_eq, right_eq]; exact above⟩)
  · exact .inr (.inl above)

end HighQc

/-! ## The tally of a round -/

theorem mem_map_of_same {α β : Type} {items others : List α}
    (same : ∀ item, item ∈ items ↔ item ∈ others) (f : α → β) (value : β) :
    value ∈ items.map f ↔ value ∈ others.map f := by
  simp only [List.mem_map, same]

namespace TimeoutVoteCollector

variable {H : Type} [Crypto H]

/-- What the collector knows of a round: who has voted, the report of each voter, and a highest
report. -/
structure Tallies (collector : TimeoutVoteCollector H) (height round : ℕ)
    (reports : List (String × HighQc H)) : Prop where
  signers : ∀ signer, signer ∈ collector.signersOf height round ↔
    signer ∈ reports.map Prod.fst
  choices : ∀ signer highQc,
    collector.timeoutChoiceBySigner.get? (height, round, signer) = some highQc ↔
      (signer, highQc) ∈ reports
  unset : collector.highestQcByRound.get? (height, round) = none → reports = []
  highest : ∀ highest, collector.highestQcByRound.get? (height, round) = some highest →
    highest ∈ reports.map Prod.snd ∧ ∀ highQc ∈ reports.map Prod.snd, highQc.Le highest

variable {collector : TimeoutVoteCollector H} {height round : ℕ}
  {reports : List (String × HighQc H)} {voterId : String} {highQc : HighQc H}

theorem tallies_empty (height round : ℕ) : (empty H).Tallies height round [] where
  signers := fun _ => iff_of_false (Finset.notMem_empty _) List.not_mem_nil
  choices := fun _ _ => iff_of_false nofun List.not_mem_nil
  unset := fun _ => rfl
  highest := nofun

/-- The tally depends on the set of reports only. -/
theorem Tallies.congr (tallies : collector.Tallies height round reports)
    {others : List (String × HighQc H)} (same : ∀ report, report ∈ reports ↔ report ∈ others) :
    collector.Tallies height round others := by
  constructor
  · intro signer
    rw [tallies.signers, mem_map_of_same same]
  · intro signer highQc
    rw [tallies.choices, same]
  · intro unset
    refine List.eq_nil_iff_forall_not_mem.mpr fun report member => ?_
    rw [← same, tallies.unset unset] at member
    cases member
  · intro highest highest_eq
    obtain ⟨attained, maximal⟩ := tallies.highest highest highest_eq
    exact ⟨(mem_map_of_same same _ _).mp attained,
      fun highQc member => maximal highQc ((mem_map_of_same same _ _).mpr member)⟩

/-- Recording a vote of another round changes nothing. -/
theorem Tallies.restoreTimeout_other (tallies : collector.Tallies height round reports)
    {otherHeight otherRound : ℕ} (other : (otherHeight, otherRound) ≠ (height, round)) :
    (collector.restoreTimeout otherHeight otherRound voterId highQc).Tallies height round
      reports := by
  have choice_ne : ∀ signer,
      (otherHeight, otherRound, voterId) ≠ (height, round, signer) := by
    intro signer same
    exact other (by simp_all)
  have highest_eq : (collector.restoreTimeout otherHeight otherRound voterId
      highQc).highestQcByRound.get? (height, round) =
        collector.highestQcByRound.get? (height, round) := by
    simp only [restoreTimeout]
    split
    · rw [OrderedDict.get?_set_of_ne _ other]
    · split
      · rw [OrderedDict.get?_set_of_ne _ other]
      · rfl
  constructor
  · intro signer
    rw [mem_signersOf_restoreTimeout, ← tallies.signers]
    exact or_iff_right fun same => other same.1
  · intro signer report
    rw [restoreTimeout, OrderedDict.get?_set_of_ne _ (choice_ne signer), tallies.choices]
  · rw [highest_eq]
    exact tallies.unset
  · rw [highest_eq]
    exact tallies.highest

/-- The higher one of a report and the highest one so far, if there is one. -/
def higherOf (candidate : HighQc H) : Option (HighQc H) → HighQc H
  | none => candidate
  | some current => if isHigherQc candidate current = true then candidate else current

theorem highestQcByRound_restoreTimeout :
    (collector.restoreTimeout height round voterId highQc).highestQcByRound.get? (height, round) =
      some (higherOf highQc (collector.highestQcByRound.get? (height, round))) := by
  simp only [restoreTimeout]
  cases current_eq : collector.highestQcByRound.get? (height, round) with
  | none => simp [higherOf]
  | some current =>
      simp only [higherOf]
      split
      · simp
      · exact current_eq

/-- Recording a vote that does not contradict an earlier one of its voter adds its report. -/
theorem Tallies.restoreTimeout (tallies : collector.Tallies height round reports)
    (consistent : ∀ existing, (voterId, existing) ∈ reports → existing = highQc) :
    (collector.restoreTimeout height round voterId highQc).Tallies height round
      ((voterId, highQc) :: reports) := by
  constructor
  · intro signer
    rw [mem_signersOf_restoreTimeout, tallies.signers, List.map_cons, List.mem_cons]
    simp
  · intro signer report
    rw [TimeoutVoteCollector.restoreTimeout, OrderedDict.get?_set]
    by_cases same : voterId = signer
    · subst same
      simp only [if_true, Option.some.injEq, List.mem_cons, Prod.mk.injEq, true_and]
      exact ⟨fun equal => .inl equal.symm, fun known => known.elim Eq.symm fun earlier =>
        (consistent report earlier).symm⟩
    · have key_ne : ¬ (height, round, voterId) = (height, round, signer) := by simpa using same
      rw [if_neg key_ne, tallies.choices]
      simp [Ne.symm same]
  · intro unset
    rw [highestQcByRound_restoreTimeout] at unset
    cases unset
  · intro highest highest_eq
    rw [highestQcByRound_restoreTimeout] at highest_eq
    obtain rfl := Option.some.inj highest_eq
    rw [List.map_cons, List.forall_mem_cons]
    cases current_eq : collector.highestQcByRound.get? (height, round) with
    | none =>
        rw [tallies.unset current_eq, higherOf]
        exact ⟨List.mem_cons_self, .refl highQc, List.forall_mem_nil _⟩
    | some current =>
        obtain ⟨attained, maximal⟩ := tallies.highest current current_eq
        rw [higherOf]
        split
        · next higher =>
            have current_le : current.Le highQc := by
              refine (HighQc.Le.total current highQc).resolve_right fun below => ?_
              rw [HighQc.isHigherQc_eq_false_iff.mpr below] at higher
              cases higher
            exact ⟨List.mem_cons_self, .refl highQc,
              fun other member => (maximal other member).trans current_le⟩
        · next lower =>
            rw [Bool.not_eq_true] at lower
            exact ⟨List.mem_cons_of_mem _ attained, HighQc.isHigherQc_eq_false_iff.mp lower,
              maximal⟩

end TimeoutVoteCollector

/-- Who votes and what is reported. -/
def TimeoutVote.report {H : Type} (vote : TimeoutVote H) : String × HighQc H :=
  (vote.voterId, vote.highQcRound, vote.highQcHash)

/-- The reported hashes are told apart by their bytes, as digests are. -/
def HashesApart {H : Type} [Crypto H] (reports : List (String × HighQc H)) : Prop :=
  ∀ left ∈ reports, ∀ right ∈ reports, ∀ left_hash ∈ left.2.2, ∀ right_hash ∈ right.2.2,
    Crypto.digestBytes left_hash = Crypto.digestBytes right_hash → left_hash = right_hash

theorem HashesApart.mono {H : Type} [Crypto H] {reports others : List (String × HighQc H)}
    (apart : HashesApart others) (subset : reports ⊆ others) : HashesApart reports :=
  fun left left_mem right right_mem => apart left (subset left_mem) right (subset right_mem)

/-- The certificate lists the voters of the reports and carries the highest report. -/
structure Certifies {H : Type} [Crypto H] (tc : TC H) (validatorSet : ValidatorSet)
    (chainId epochId height round : ℕ) (reports : List (String × HighQc H)) : Prop where
  chainId_eq : tc.chainId = chainId
  epochId_eq : tc.epochId = epochId
  height_eq : tc.height = height
  round_eq : tc.round = round
  validatorSetHash_eq : tc.validatorSetHash = validatorSet.validatorSetHash
  signers : ∀ signer, signer ∈ tc.signers.ids ↔ signer ∈ reports.map Prod.fst
  attained : (tc.highQcRound, tc.highQcHash) ∈ reports.map Prod.snd
  maximal : ∀ highQc ∈ reports.map Prod.snd, highQc.Le (tc.highQcRound, tc.highQcHash)

section Certifies

variable {H : Type} [Crypto H] {validatorSet : ValidatorSet} {chainId epochId height round : ℕ}
  {reports : List (String × HighQc H)}

theorem Certifies.congr {tc : TC H}
    (certifies : Certifies tc validatorSet chainId epochId height round reports)
    {others : List (String × HighQc H)} (same : ∀ report, report ∈ reports ↔ report ∈ others) :
    Certifies tc validatorSet chainId epochId height round others := by
  exact
    { certifies with
      signers := fun signer => (certifies.signers signer).trans (mem_map_of_same same _ _)
      attained := (mem_map_of_same same _ _).mp certifies.attained
      maximal := fun highQc member =>
        certifies.maximal highQc ((mem_map_of_same same _ _).mpr member) }

theorem HashesApart.highest_unique (apart : HashesApart reports) {left right : HighQc H}
    (left_attained : left ∈ reports.map Prod.snd) (right_attained : right ∈ reports.map Prod.snd)
    (left_maximal : ∀ highQc ∈ reports.map Prod.snd, highQc.Le left)
    (right_maximal : ∀ highQc ∈ reports.map Prod.snd, highQc.Le right) : left = right := by
  obtain ⟨left_report, left_mem, rfl⟩ := List.mem_map.mp left_attained
  obtain ⟨right_report, right_mem, rfl⟩ := List.mem_map.mp right_attained
  exact (right_maximal _ left_attained).antisymm (left_maximal _ right_attained)
    (apart left_report left_mem right_report right_mem)

theorem Signers.eq_of_mem {left right : Signers}
    (same : ∀ signer, signer ∈ left.ids ↔ signer ∈ right.ids) : left = right := by
  have perm : left.ids.Perm right.ids :=
    (List.perm_ext_iff_of_nodup left.nodup right.nodup).mpr same
  have ids_eq : left.ids = right.ids :=
    perm.eq_of_pairwise (fun _ _ _ _ => le_antisymm) left.sorted right.sorted
  cases left
  cases right
  simp_all

/-- A set of reports has one certificate. -/
theorem Certifies.unique (apart : HashesApart reports) {left right : TC H}
    (certifies : Certifies left validatorSet chainId epochId height round reports)
    {others : List (String × HighQc H)}
    (other_certifies : Certifies right validatorSet chainId epochId height round others)
    (same : ∀ report, report ∈ reports ↔ report ∈ others) : left = right := by
  have signers_eq : left.signers = right.signers := Signers.eq_of_mem fun signer => by
    rw [certifies.signers, other_certifies.signers, mem_map_of_same same]
  have highest_eq := apart.highest_unique certifies.attained
    ((mem_map_of_same same _ _).mpr other_certifies.attained) certifies.maximal
    fun highQc member => other_certifies.maximal highQc ((mem_map_of_same same _ _).mp member)
  obtain ⟨chain, epoch, height, round, hash, _, _, _⟩ := certifies
  obtain ⟨other_chain, other_epoch, other_height, other_round, other_hash, _, _, _⟩ :=
    other_certifies
  cases left
  cases right
  simp_all

end Certifies

/-! ## Counting a vote -/

namespace TimeoutVoteCollector

variable {H : Type} [Crypto H] [DecidableEq H] {collector other : TimeoutVoteCollector H}
  {vote : TimeoutVote H} {validatorSet : ValidatorSet} {reports : List (String × HighQc H)}

/-- A counted vote adds its report, and the certificate is returned once the voters are a
quorum. -/
theorem Tallies.addTimeoutVote_eq_ok (tallies : collector.Tallies vote.height vote.round reports)
    {result : Option (TC H)} {counted : TimeoutVoteCollector H}
    (added : collector.addTimeoutVote vote validatorSet = .ok (result, counted)) :
    counted = collector.restoreTimeout vote.height vote.round vote.voterId
        (vote.highQcRound, vote.highQcHash) ∧
      counted.Tallies vote.height vote.round (vote.report :: reports) ∧
      (result = none ↔
        ¬ validatorSet.hasQuorum ((vote.report :: reports).map Prod.fst).toFinset = true) ∧
      ∀ tc ∈ result, Certifies tc validatorSet vote.chainId vote.epochId vote.height vote.round
        (vote.report :: reports) := by
  simp only [addTimeoutVote, bind_eq_ok, require_eq_ok, exists_const] at added
  obtain ⟨set_eq, _, consistent, outcome⟩ := added
  have restored : (collector.restoreTimeout vote.height vote.round vote.voterId
      (vote.highQcRound, vote.highQcHash)).Tallies vote.height vote.round
        (vote.report :: reports) :=
    tallies.restoreTimeout fun existing member =>
      consistent existing ((tallies.choices vote.voterId existing).mpr member)
  have signers_eq : insert vote.voterId
      ((collector.signersByRound.get? (vote.height, vote.round)).getD ∅) =
        ((vote.report :: reports).map Prod.fst).toFinset := by
    ext signer
    have known := tallies.signers signer
    rw [signersOf] at known
    rw [Finset.mem_insert, known, List.map_cons, List.mem_toFinset, List.mem_cons]
    rfl
  simp only [signers_eq] at outcome
  split at outcome
  · next quorum =>
      rw [pure_eq_ok, Prod.mk.injEq] at outcome
      obtain ⟨rfl, rfl⟩ := outcome
      refine ⟨rfl, restored, iff_of_false (Option.some_ne_none _) (not_not.mpr quorum),
        fun tc member => ?_⟩
      obtain rfl := Option.mem_some_iff.mp member
      obtain ⟨highest, highest_eq⟩ : ∃ highest, (collector.restoreTimeout vote.height vote.round
          vote.voterId (vote.highQcRound, vote.highQcHash)).highestQcByRound.get?
            (vote.height, vote.round) = some highest := ⟨_, highestQcByRound_restoreTimeout⟩
      obtain ⟨attained, maximal⟩ := restored.highest highest highest_eq
      refine ⟨rfl, rfl, rfl, rfl, set_eq, fun signer => ?_, ?_, ?_⟩
      · rw [← List.mem_toFinset, Signers.toFinset_ofFinset, List.mem_toFinset]
      · simp only [highest_eq, Option.getD_some]
        exact attained
      · simp only [highest_eq, Option.getD_some]
        exact maximal
  · next below =>
      rw [pure_eq_ok, Prod.mk.injEq] at outcome
      obtain ⟨rfl, rfl⟩ := outcome
      exact ⟨rfl, restored, iff_of_true rfl below, forall_mem_none _⟩

/-- A vote is counted exactly when it names the validator set and a member, and contradicts no
earlier vote of its voter. -/
theorem Tallies.exists_addTimeoutVote_iff
    (tallies : collector.Tallies vote.height vote.round reports) :
    (∃ result, collector.addTimeoutVote vote validatorSet = .ok result) ↔
      vote.validatorSetHash = validatorSet.validatorSetHash ∧
        validatorSet.contains vote.voterId = true ∧
        ∀ highQc, (vote.voterId, highQc) ∈ reports → highQc = vote.report.2 := by
  have choices : (∀ existing ∈ collector.timeoutChoiceBySigner.get?
      (vote.height, vote.round, vote.voterId), existing =
        (vote.highQcRound, vote.highQcHash)) ↔
      ∀ highQc, (vote.voterId, highQc) ∈ reports → highQc = vote.report.2 :=
    forall_congr' fun highQc => imp_congr (tallies.choices vote.voterId highQc) Iff.rfl
  rw [← choices]
  simp only [addTimeoutVote, bind_eq_ok, require_eq_ok, exists_const]
  constructor
  · rintro ⟨_, set_eq, member, consistent, _⟩
    exact ⟨set_eq, member, consistent⟩
  · rintro ⟨set_eq, member, consistent⟩
    by_cases quorum : validatorSet.hasQuorum (insert vote.voterId
        ((collector.signersByRound.get? (vote.height, vote.round)).getD ∅)) = true
    · exact ⟨_, set_eq, member, consistent, if_pos quorum⟩
    · exact ⟨_, set_eq, member, consistent, if_neg quorum⟩

/-- The checks of a vote, which read nothing but the earlier report of its voter. -/
def checkTimeoutVote (existing : Option (HighQc H)) (vote : TimeoutVote H)
    (validatorSet : ValidatorSet) : Except String Unit := do
  require (vote.validatorSetHash = validatorSet.validatorSetHash)
    "timeout vote validator_set_hash mismatch"
  require (validatorSet.contains vote.voterId = true) "timeout vote signer is not in validator set"
  require (∀ highQc ∈ existing, highQc = (vote.highQcRound, vote.highQcHash))
    "conflicting timeout vote from same signer"

theorem addTimeoutVote_eq_error {message : String} :
    collector.addTimeoutVote vote validatorSet = .error message ↔
      checkTimeoutVote (collector.timeoutChoiceBySigner.get?
        (vote.height, vote.round, vote.voterId)) vote validatorSet = .error message := by
  simp only [addTimeoutVote, checkTimeoutVote, bind_eq_error]
  refine or_congr_right (exists_congr fun _ => and_congr_right fun _ =>
    or_congr_right (exists_congr fun _ => and_congr_right fun _ => ?_))
  constructor
  · rintro (conflict | ⟨_, _, counted⟩)
    · exact conflict
    · split_ifs at counted <;> cases counted
  · exact Or.inl

/-- Two collectors with the same tally answer a vote in the same way. -/
theorem Tallies.addTimeoutVote_congr (tallies : collector.Tallies vote.height vote.round reports)
    (other_tallies : other.Tallies vote.height vote.round reports)
    (apart : HashesApart (vote.report :: reports)) :
    (collector.addTimeoutVote vote validatorSet).map Prod.fst =
      (other.addTimeoutVote vote validatorSet).map Prod.fst := by
  have choices_eq : collector.timeoutChoiceBySigner.get? (vote.height, vote.round, vote.voterId) =
      other.timeoutChoiceBySigner.get? (vote.height, vote.round, vote.voterId) :=
    Option.ext fun highQc => (tallies.choices _ highQc).trans (other_tallies.choices _ highQc).symm
  cases added : collector.addTimeoutVote vote validatorSet with
  | error message =>
      rw [addTimeoutVote_eq_error, choices_eq, ← addTimeoutVote_eq_error] at added
      rw [added]
  | ok result =>
      obtain ⟨other_result, other_added⟩ := other_tallies.exists_addTimeoutVote_iff.mpr
        (tallies.exists_addTimeoutVote_iff.mp ⟨result, added⟩)
      obtain ⟨_, restored, none_iff, certifies⟩ := tallies.addTimeoutVote_eq_ok added
      obtain ⟨_, _, other_none_iff, other_certifies⟩ :=
        other_tallies.addTimeoutVote_eq_ok other_added
      rw [other_added]
      apply congrArg Except.ok
      obtain ⟨result, counted⟩ := result
      obtain ⟨other_result, other_counted⟩ := other_result
      cases result with
      | none => exact (other_none_iff.mpr (none_iff.mp rfl)).symm
      | some tc =>
          cases other_result with
          | none => exact absurd (none_iff.mpr (other_none_iff.mp rfl)) (Option.some_ne_none tc)
          | some other_tc =>
              exact congrArg some ((certifies tc rfl).unique apart (other_certifies other_tc rfl)
                fun _ => Iff.rfl)

end TimeoutVoteCollector

/-! ## The core -/

/-- A call of the core, a local timeout vote that is fed back at once, or a restart from the
store. -/
inductive TimeoutEvent (H : Type) where
  | call (call : ConsensusCore.Call H)
  | localTimeout (height round : ℕ)
  | restart

namespace ConsensusCore

variable {H : Type} [Crypto H] [DecidableEq H]

/-- The core after timeout votes were given to it. -/
def afterVotes (core : ConsensusCore H) (votes : List (TimeoutVote H)) : ConsensusCore H :=
  votes.foldl (fun core vote => (core.acceptTimeoutVote vote).2) core

/-- The answers to timeout votes. -/
def answers (core : ConsensusCore H) : List (TimeoutVote H) → List (Except String (Option (TC H)))
  | [] => []
  | vote :: rest =>
      (core.acceptTimeoutVote vote).1 :: answers (core.acceptTimeoutVote vote).2 rest

/-- The reports of the votes that are accepted. -/
def acceptedReports (core : ConsensusCore H) : List (TimeoutVote H) → List (String × HighQc H)
  | [] => []
  | vote :: rest =>
      if (core.acceptTimeoutVote vote).1.isOk then
        vote.report :: acceptedReports (core.acceptTimeoutVote vote).2 rest
      else acceptedReports (core.acceptTimeoutVote vote).2 rest

/-- The last certificate among answers. -/
def lastCertificate (answers : List (Except String (Option (TC H)))) : Option (TC H) :=
  (answers.filterMap fun answer => answer.toOption.join).getLast?

/-- The core after an event. -/
def advance (core : ConsensusCore H) : TimeoutEvent H → ConsensusCore H
  | .call call => core.perform call
  | .localTimeout height round =>
      match core.makeTimeoutVote height round with
      | (.error _, next) => next
      | (.ok vote, next) => next.perform (.acceptTimeoutVote vote)
  | .restart => core.restart

/-- The timeout vote that is given to the core in an event, with the answer. -/
def received (core : ConsensusCore H) :
    TimeoutEvent H → Option (TimeoutVote H × Except String (Option (TC H)))
  | .call (.acceptTimeoutVote vote) => some (vote, (core.acceptTimeoutVote vote).1)
  | .localTimeout height round =>
      match core.makeTimeoutVote height round with
      | (.error _, _) => none
      | (.ok vote, next) => some (vote, (next.acceptTimeoutVote vote).1)
  | .call _ | .restart => none

/-- The timeout votes of a round that are given to the core, with the answers. -/
def trace (height round : ℕ) (core : ConsensusCore H) :
    List (TimeoutEvent H) → List (TimeoutVote H × Except String (Option (TC H)))
  | [] => []
  | event :: rest =>
      (core.received event).toList.filter
          (fun item => item.1.height = height ∧ item.1.round = round) ++
        trace height round (core.advance event) rest

/-- The collector and the timeout log agree on the reports of a round. -/
structure Counted (core : ConsensusCore H) (height round : ℕ)
    (reports : List (String × HighQc H)) : Prop where
  tallies : core.timeoutVoteCollector.Tallies height round reports
  logged : ∀ signer highQc, core.store.timeoutLog.get? (height, round, signer) = some highQc ↔
    (signer, highQc) ∈ reports

/-- An event that prunes nothing of the round, makes no timeout vote for it without feeding it back,
and makes none that contradicts an accepted vote in the local name. -/
def Undisturbed (height round : ℕ) (core : ConsensusCore H) : TimeoutEvent H → Prop
  | .call call => (∀ vote, core.emittedTimeout call = some vote →
      (vote.height, vote.round) ≠ (height, round)) ∧ ¬ Prunes (core.observed call) round
  | .localTimeout localHeight localRound => (localHeight, localRound) = (height, round) →
      (height, round) ∉ core.localTimeoutRounds →
      ∀ highQc ∈ core.timeoutVoteCollector.timeoutChoiceBySigner.get?
        (height, round, core.localValidatorId), highQc = core.reportedQc
  | .restart => True

/-- The vote is for the round, in the chain and the epoch. -/
structure OfRound (chainId epochId height round : ℕ) (vote : TimeoutVote H) : Prop where
  chainId_eq : vote.chainId = chainId
  epochId_eq : vote.epochId = epochId
  height_eq : vote.height = height
  round_eq : vote.round = round

/-! ## Accepting votes -/

section Accept

variable {core : ConsensusCore H} {height round : ℕ} {reports : List (String × HighQc H)}

@[simp]
theorem timeoutVoteCollector_observeTc (core : ConsensusCore H) (tc : Option (TC H)) :
    (core.observeTc tc).timeoutVoteCollector = core.timeoutVoteCollector := by
  cases tc <;> rfl

@[simp]
theorem timeoutVoteCollector_observeQc (core : ConsensusCore H) (qc : Option (QC H)) :
    (core.observeQc qc).timeoutVoteCollector = core.timeoutVoteCollector := by
  cases qc <;> rfl

/-- Only accepted timeout votes reach the collector. -/
theorem timeoutVoteCollector_perform (core : ConsensusCore H) (call : Call H)
    (other : ∀ vote, call ≠ .acceptTimeoutVote vote) :
    (core.perform call).timeoutVoteCollector = core.timeoutVoteCollector := by
  cases call with
  | observeQc qc => exact timeoutVoteCollector_observeQc core qc
  | observeTc tc => exact timeoutVoteCollector_observeTc core tc
  | validateProposal proposal justifyQc =>
      simp only [perform, validateProposal_snd]
      split <;> exact timeoutVoteCollector_observeQc core justifyQc
  | makeVote proposal justifyQc phase =>
      simp only [perform, makeVote_snd, validateProposal_snd]
      split <;> split <;> exact timeoutVoteCollector_observeQc core justifyQc
  | acceptVote vote =>
      simp only [perform, acceptVote]
      split
      · rfl
      · exact timeoutVoteCollector_observeQc _ _
  | makeTimeoutVote height round =>
      simp only [perform, makeTimeoutVote]
      split_ifs <;> rfl
  | acceptTimeoutVote vote => exact absurd rfl (other vote)

theorem acceptTimeoutVote_of_error {vote : TimeoutVote H} {message : String}
    (raised : (core.acceptTimeoutVote vote).1 = .error message) :
    (core.acceptTimeoutVote vote).2 = core := by
  rw [acceptTimeoutVote] at raised ⊢
  cases added : core.timeoutVoteCollector.addTimeoutVote vote core.validatorSet with
  | error message => rfl
  | ok result =>
      rw [added] at raised
      cases raised

/-- An accepted vote adds its report to the tally of its round, and the certificate that it may
complete is the one for all reports. -/
theorem acceptTimeoutVote_of_ok {vote : TimeoutVote H} {result : Option (TC H)}
    (tallies : core.timeoutVoteCollector.Tallies vote.height vote.round reports)
    (accepted : (core.acceptTimeoutVote vote).1 = .ok result) :
    (core.acceptTimeoutVote vote).2.timeoutVoteCollector.Tallies vote.height vote.round
        (vote.report :: reports) ∧
      (result = none ↔
        ¬ core.validatorSet.hasQuorum ((vote.report :: reports).map Prod.fst).toFinset = true) ∧
      ∀ tc ∈ result, Certifies tc core.validatorSet vote.chainId vote.epochId vote.height vote.round
        (vote.report :: reports) := by
  rw [acceptTimeoutVote] at accepted ⊢
  cases added : core.timeoutVoteCollector.addTimeoutVote vote core.validatorSet with
  | error message =>
      rw [added] at accepted
      cases accepted
  | ok answer =>
      obtain ⟨tc, counted⟩ := answer
      rw [added] at accepted
      obtain rfl := Except.ok.inj accepted
      obtain ⟨_, restored, none_iff, certifies⟩ := tallies.addTimeoutVote_eq_ok added
      refine ⟨?_, none_iff, certifies⟩
      rwa [timeoutVoteCollector_observeTc]

theorem validatorSet_acceptTimeoutVote (core : ConsensusCore H) (vote : TimeoutVote H) :
    (core.acceptTimeoutVote vote).2.validatorSet = core.validatorSet :=
  (identity_perform core (.acceptTimeoutVote vote)).2.1

theorem acceptTimeoutVote_fst (core : ConsensusCore H) (vote : TimeoutVote H) :
    (core.acceptTimeoutVote vote).1 =
      (core.timeoutVoteCollector.addTimeoutVote vote core.validatorSet).map Prod.fst := by
  rw [acceptTimeoutVote]
  cases core.timeoutVoteCollector.addTimeoutVote vote core.validatorSet <;> rfl

theorem acceptTimeoutVote_congr {other : ConsensusCore H} {vote : TimeoutVote H}
    (tallies : core.timeoutVoteCollector.Tallies vote.height vote.round reports)
    (other_tallies : other.timeoutVoteCollector.Tallies vote.height vote.round reports)
    (same_set : other.validatorSet = core.validatorSet)
    (apart : HashesApart (vote.report :: reports)) :
    (core.acceptTimeoutVote vote).1 = (other.acceptTimeoutVote vote).1 := by
  rw [acceptTimeoutVote_fst, acceptTimeoutVote_fst, same_set]
  exact tallies.addTimeoutVote_congr other_tallies apart

@[simp]
theorem afterVotes_concat (core : ConsensusCore H) (votes : List (TimeoutVote H))
    (vote : TimeoutVote H) :
    core.afterVotes (votes ++ [vote]) = ((core.afterVotes votes).acceptTimeoutVote vote).2 := by
  rw [afterVotes, List.foldl_append]
  rfl

theorem answers_append (core : ConsensusCore H) (votes others : List (TimeoutVote H)) :
    core.answers (votes ++ others) =
      core.answers votes ++ (core.afterVotes votes).answers others := by
  induction votes generalizing core with
  | nil => rfl
  | cons vote rest induction =>
      rw [List.cons_append, answers, induction, answers, List.cons_append]
      rfl

theorem acceptedReports_append (core : ConsensusCore H) (votes others : List (TimeoutVote H)) :
    core.acceptedReports (votes ++ others) =
      core.acceptedReports votes ++ (core.afterVotes votes).acceptedReports others := by
  induction votes generalizing core with
  | nil => rfl
  | cons vote rest induction =>
      rw [List.cons_append, acceptedReports, induction, acceptedReports]
      split <;> rfl

theorem validatorSet_afterVotes (core : ConsensusCore H) (votes : List (TimeoutVote H)) :
    (core.afterVotes votes).validatorSet = core.validatorSet := by
  induction votes using List.reverseRecOn with
  | nil => rfl
  | append_singleton votes vote induction =>
      rw [afterVotes_concat, validatorSet_acceptTimeoutVote, induction]

theorem acceptedReports_concat (core : ConsensusCore H) (votes : List (TimeoutVote H))
    (vote : TimeoutVote H) :
    core.acceptedReports (votes ++ [vote]) = core.acceptedReports votes ++
      if ((core.afterVotes votes).acceptTimeoutVote vote).1.isOk then [vote.report] else [] := by
  rw [acceptedReports_append, acceptedReports, acceptedReports]

theorem acceptedReports_subset (core : ConsensusCore H) (votes : List (TimeoutVote H)) :
    core.acceptedReports votes ⊆ votes.map TimeoutVote.report := by
  induction votes generalizing core with
  | nil => exact List.Subset.refl []
  | cons vote rest induction =>
      rw [acceptedReports, List.map_cons]
      split
      · exact List.cons_subset_cons _ (induction _)
      · exact List.subset_cons_of_subset _ (induction _)

theorem tallies_afterVotes (tallies : core.timeoutVoteCollector.Tallies height round [])
    {votes : List (TimeoutVote H)}
    (of_round : ∀ vote ∈ votes, vote.height = height ∧ vote.round = round) :
    (core.afterVotes votes).timeoutVoteCollector.Tallies height round
      (core.acceptedReports votes) := by
  induction votes using List.reverseRecOn with
  | nil => exact tallies
  | append_singleton votes vote induction =>
      obtain ⟨before, ⟨rfl, rfl⟩⟩ := List.forall_mem_append.mp of_round |>.imp_right
        (fun last => last vote (List.mem_singleton_self vote))
      have known := induction before
      rw [afterVotes_concat, acceptedReports_concat]
      cases answer : ((core.afterVotes votes).acceptTimeoutVote vote).1 with
      | error message =>
          rw [acceptTimeoutVote_of_error answer]
          simpa [Except.isOk, Except.toBool] using known
      | ok result =>
          refine (acceptTimeoutVote_of_ok known answer).1.congr fun report => ?_
          simp [Except.isOk, Except.toBool, or_comm]

end Accept

/-! ## Certificates of a sequence of votes -/

section Sequence

variable {core : ConsensusCore H} {chainId epochId height round : ℕ}

theorem certifies_of_accepted (tallies : core.timeoutVoteCollector.Tallies height round [])
    {votes : List (TimeoutVote H)} {vote : TimeoutVote H} {tc : TC H}
    (of_round : ∀ item ∈ votes ++ [vote], OfRound chainId epochId height round item)
    (returned : ((core.afterVotes votes).acceptTimeoutVote vote).1 = .ok (some tc)) :
    Certifies tc core.validatorSet chainId epochId height round
      (core.acceptedReports (votes ++ [vote])) := by
  obtain ⟨rfl, rfl, rfl, rfl⟩ :=
    of_round vote (List.mem_append_right _ (List.mem_singleton_self vote))
  have known := tallies_afterVotes tallies fun earlier member =>
    have in_round := of_round earlier (List.mem_append_left _ member)
    ⟨in_round.height_eq, in_round.round_eq⟩
  have certifies := (acceptTimeoutVote_of_ok known returned).2.2 tc rfl
  rw [validatorSet_afterVotes] at certifies
  have same : ∀ report, report ∈ vote.report :: core.acceptedReports votes ↔
      report ∈ core.acceptedReports (votes ++ [vote]) := by
    intro report
    rw [acceptedReports_concat, returned]
    simp [Except.isOk, Except.toBool, or_comm]
  exact certifies.congr same

/-- The last certificate is the one for all accepted votes, once their voters are a quorum. -/
structure Ends (validatorSet : ValidatorSet) (chainId epochId height round : ℕ)
    (reports : List (String × HighQc H)) (last : Option (TC H)) : Prop where
  none_iff : last = none ↔ ¬ validatorSet.hasQuorum (reports.map Prod.fst).toFinset = true
  certifies : ∀ tc ∈ last, Certifies tc validatorSet chainId epochId height round reports

omit [Crypto H] [DecidableEq H] in
theorem lastCertificate_concat (answers : List (Except String (Option (TC H))))
    (answer : Except String (Option (TC H))) :
    lastCertificate (answers ++ [answer]) = answer.toOption.join.or (lastCertificate answers) := by
  rw [lastCertificate, List.filterMap_append, List.filterMap_cons]
  cases answer.toOption.join with
  | none => simp [lastCertificate]
  | some tc => simp

theorem ends_answers (tallies : core.timeoutVoteCollector.Tallies height round [])
    {votes : List (TimeoutVote H)}
    (of_round : ∀ vote ∈ votes, OfRound chainId epochId height round vote) :
    Ends core.validatorSet chainId epochId height round (core.acceptedReports votes)
      (lastCertificate (core.answers votes)) := by
  induction votes using List.reverseRecOn with
  | nil =>
      refine ⟨iff_of_true rfl ?_, forall_mem_none _⟩
      rw [ValidatorSet.hasQuorum_iff, not_le]
      exact Nat.succ_pos _
  | append_singleton votes vote induction =>
      have earlier := induction fun vote member => of_round vote (List.mem_append_left _ member)
      rw [answers_append, answers, answers, lastCertificate_concat]
      cases answer : ((core.afterVotes votes).acceptTimeoutVote vote).1 with
      | error message =>
          rw [acceptedReports_concat, answer]
          simpa [Except.isOk, Except.toBool, Except.toOption] using earlier
      | ok result =>
          obtain ⟨rfl, rfl, rfl, rfl⟩ :=
            of_round vote (List.mem_append_right _ (List.mem_singleton_self vote))
          have known := tallies_afterVotes tallies fun earlier member =>
            have in_round := of_round earlier (List.mem_append_left _ member)
            ⟨in_round.height_eq, in_round.round_eq⟩
          have none_iff := (acceptTimeoutVote_of_ok known answer).2.1
          rw [validatorSet_afterVotes] at none_iff
          have voters_eq : ((vote.report :: core.acceptedReports votes).map Prod.fst).toFinset =
              ((core.acceptedReports (votes ++ [vote])).map Prod.fst).toFinset := by
            ext signer
            rw [acceptedReports_concat, answer]
            simp [Except.isOk, Except.toBool]
          rw [voters_eq] at none_iff
          cases result with
          | some tc =>
              have some_ne := Option.some_ne_none tc
              refine ⟨iff_of_false some_ne (none_iff.not.mp some_ne), fun other member => ?_⟩
              obtain rfl := Option.mem_some_iff.mp member
              exact certifies_of_accepted tallies of_round answer
          | none =>
              have below := none_iff.mp rfl
              have earlier_below : lastCertificate (core.answers votes) = none := by
                refine earlier.none_iff.mpr fun quorum => below ?_
                refine ValidatorSet.hasQuorum_mono ?_ quorum
                rw [← voters_eq]
                intro signer member
                rw [List.mem_toFinset] at member ⊢
                exact List.mem_cons_of_mem _ member
              rw [earlier_below]
              exact ⟨iff_of_true rfl below, forall_mem_none _⟩

omit [DecidableEq H] in
/-- Sequences with the same accepted votes end with the same certificate. -/
theorem Ends.unique {validatorSet : ValidatorSet} {reports others : List (String × HighQc H)}
    {last other_last : Option (TC H)}
    (ends : Ends validatorSet chainId epochId height round reports last)
    (other_ends : Ends validatorSet chainId epochId height round others other_last)
    (apart : HashesApart reports) (same : ∀ report, report ∈ reports ↔ report ∈ others) :
    last = other_last := by
  have voters_eq : (reports.map Prod.fst).toFinset = (others.map Prod.fst).toFinset := by
    ext signer
    rw [List.mem_toFinset, List.mem_toFinset, mem_map_of_same same]
  have none_iff := ends.none_iff
  rw [voters_eq, ← other_ends.none_iff] at none_iff
  cases last with
  | none => exact (none_iff.mp rfl).symm
  | some tc =>
      cases other_last with
      | none => exact absurd (none_iff.mpr rfl) (Option.some_ne_none tc)
      | some other_tc =>
          exact congrArg some ((ends.certifies tc rfl).unique apart
            (other_ends.certifies other_tc rfl) same)

/-- The votes of one signer make one report. -/
def SingleReports (votes : List (TimeoutVote H)) : Prop :=
  ∀ left ∈ votes, ∀ right ∈ votes, left.voterId = right.voterId → left.report = right.report

/-- Votes that do not contradict each other are accepted when they name the validator set and a
member. -/
theorem SingleReports.mem_acceptedReports {votes : List (TimeoutVote H)}
    (single : SingleReports votes) (tallies : core.timeoutVoteCollector.Tallies height round [])
    (of_round : ∀ vote ∈ votes, OfRound chainId epochId height round vote)
    (report : String × HighQc H) : report ∈ core.acceptedReports votes ↔
      ∃ vote ∈ votes, vote.report = report ∧
        vote.validatorSetHash = core.validatorSet.validatorSetHash ∧
        core.validatorSet.contains vote.voterId = true := by
  induction votes using List.reverseRecOn generalizing report with
  | nil => simp [acceptedReports]
  | append_singleton votes vote induction =>
      have earlier := induction
        (fun left left_mem right right_mem =>
          single left (List.mem_append_left _ left_mem) right (List.mem_append_left _ right_mem))
        (fun vote member => of_round vote (List.mem_append_left _ member))
      have last_mem : vote ∈ votes ++ [vote] :=
        List.mem_append_right _ (List.mem_singleton_self vote)
      obtain ⟨rfl, rfl, rfl, rfl⟩ := of_round vote last_mem
      have known := tallies_afterVotes tallies fun earlier member =>
        have in_round := of_round earlier (List.mem_append_left _ member)
        ⟨in_round.height_eq, in_round.round_eq⟩
      have consistent : ∀ highQc, (vote.voterId, highQc) ∈ core.acceptedReports votes →
          highQc = vote.report.2 := by
        intro highQc member
        obtain ⟨other, other_mem, report_eq, _⟩ := (earlier _).mp member
        have same := single other (List.mem_append_left _ other_mem) vote last_mem
          (congrArg Prod.fst report_eq)
        rw [← same, report_eq]
      have accepted_iff : (∃ result, (core.afterVotes votes).timeoutVoteCollector.addTimeoutVote
          vote core.validatorSet = .ok result) ↔
            vote.validatorSetHash = core.validatorSet.validatorSetHash ∧
              core.validatorSet.contains vote.voterId = true := by
        rw [known.exists_addTimeoutVote_iff, and_iff_left consistent]
      have answer_eq := acceptTimeoutVote_fst (core.afterVotes votes) vote
      rw [validatorSet_afterVotes] at answer_eq
      rw [acceptedReports_concat, answer_eq, List.mem_append, earlier]
      cases added : (core.afterVotes votes).timeoutVoteCollector.addTimeoutVote vote
          core.validatorSet with
      | error message =>
          rw [added] at accepted_iff
          have refused : ¬ (vote.validatorSetHash = core.validatorSet.validatorSetHash ∧
              core.validatorSet.contains vote.voterId = true) := by
            rw [← accepted_iff]
            rintro ⟨_, answered⟩
            cases answered
          simp only [Except.map, Except.isOk, Except.toBool, Bool.false_eq_true, if_false,
            List.not_mem_nil, or_false, List.mem_append, List.mem_singleton, or_and_right,
            exists_or, exists_eq_left]
          exact ⟨Or.inl, fun known => known.resolve_right fun last => refused last.2⟩
      | ok answer =>
          have allowed := accepted_iff.mp ⟨answer, added⟩
          simp only [Except.map, Except.isOk, Except.toBool, if_true, List.mem_append,
            List.mem_singleton, or_and_right, exists_or, exists_eq_left]
          exact or_congr_right ⟨fun report_eq => ⟨report_eq.symm, allowed⟩, fun last => last.1.symm⟩

end Sequence

/-! ## Restarts -/

section Restarts

variable {core : ConsensusCore H} {height round : ℕ} {reports : List (String × HighQc H)}

/-- The reports of a round among the entries of the timeout log. -/
def reportsOf (height round : ℕ) (entries : List ((ℕ × ℕ × String) × HighQc H)) :
    List (String × HighQc H) :=
  (entries.filter fun entry => (entry.1.1, entry.1.2.1) = (height, round)).map
    fun entry => (entry.1.2.2, entry.2)

omit [Crypto H] [DecidableEq H] in
theorem mem_reportsOf {entries : List ((ℕ × ℕ × String) × HighQc H)} {signer : String}
    {highQc : HighQc H} : (signer, highQc) ∈ reportsOf height round entries ↔
      ((height, round, signer), highQc) ∈ entries := by
  simp only [reportsOf, List.mem_map, List.mem_filter, decide_eq_true_eq]
  constructor
  · rintro ⟨⟨⟨_, _, _⟩, _⟩, ⟨member, same⟩, report_eq⟩
    simp only [Prod.mk.injEq] at same report_eq
    obtain ⟨⟨rfl, rfl⟩, rfl, rfl⟩ := And.intro same report_eq
    exact member
  · intro member
    exact ⟨_, ⟨member, rfl⟩, rfl⟩

omit [DecidableEq H] in
/-- Restoring the entries of a log tallies the reports of every round. -/
theorem tallies_restored (entries : List ((ℕ × ℕ × String) × HighQc H))
    (nodup : (entries.map Prod.fst).Nodup) :
    (entries.foldl (fun (collector : TimeoutVoteCollector H) entry =>
        collector.restoreTimeout entry.1.1 entry.1.2.1 entry.1.2.2 entry.2) (.empty H)).Tallies
      height round (reportsOf height round entries) := by
  induction entries using List.reverseRecOn with
  | nil => exact TimeoutVoteCollector.tallies_empty height round
  | append_singleton entries entry induction =>
      rw [List.map_append, List.nodup_append] at nodup
      obtain ⟨nodup, _, apart⟩ := nodup
      have earlier := induction nodup
      obtain ⟨⟨entryHeight, entryRound, voterId⟩, highQc⟩ := entry
      rw [List.foldl_append, List.foldl_cons, List.foldl_nil]
      by_cases same : (entryHeight, entryRound) = (height, round)
      · obtain ⟨rfl, rfl⟩ := Prod.mk.inj same
        have unreported : ∀ existing,
            (voterId, existing) ∈ reportsOf entryHeight entryRound entries →
              existing = highQc := by
          intro existing member
          have present := List.mem_map_of_mem (f := Prod.fst) (mem_reportsOf.mp member)
          exact absurd rfl (apart _ present _ (List.mem_singleton_self _))
        refine (earlier.restoreTimeout unreported).congr fun report => ?_
        simp [reportsOf, or_comm]
      · refine (earlier.restoreTimeout_other same).congr fun report => ?_
        rw [mem_reportsOf, mem_reportsOf, List.mem_append]
        refine ⟨.inl, fun member => member.resolve_right fun last => same ?_⟩
        simp only [List.mem_singleton, Prod.mk.injEq] at last
        obtain ⟨⟨rfl, rfl, _⟩, _⟩ := last
        rfl

/-- A restart tallies the reports of the log. -/
theorem Counted.restart (counted : core.Counted height round reports) :
    core.restart.Counted height round reports := by
  constructor
  · simp only [ConsensusCore.restart, postInit, dif_pos core.local_mem]
    refine (tallies_restored core.store.timeoutLog.entries core.store.timeoutLog.nodup).congr
      fun report => ?_
    rw [mem_reportsOf, ← OrderedDict.get?_eq_some_iff, counted.logged]
  · rw [store_restart]
    exact counted.logged

/-- The log after a vote of the round was accepted. -/
theorem counted_acceptTimeoutVote {vote : TimeoutVote H}
    (tallies : core.timeoutVoteCollector.Tallies vote.height vote.round reports)
    (logged : ∀ signer highQc, signer ≠ vote.voterId →
      (core.store.timeoutLog.get? (vote.height, vote.round, signer) = some highQc ↔
        (signer, highQc) ∈ reports))
    {result : Option (TC H)} (accepted : (core.acceptTimeoutVote vote).1 = .ok result) :
    (core.acceptTimeoutVote vote).2.Counted vote.height vote.round (vote.report :: reports) := by
  obtain ⟨restored, _⟩ := acceptTimeoutVote_of_ok tallies accepted
  refine ⟨restored, fun signer highQc => ?_⟩
  have logs : core.loggedTimeout (.acceptTimeoutVote vote) = some vote := by
    rw [loggedTimeout, accepted]
  have row := timeoutLog_perform core (.acceptTimeoutVote vote) vote.height vote.round signer
  rw [if_neg (by rintro ⟨_, observes, _⟩; cases observes), logs] at row
  simp only [perform] at row
  rw [row]
  by_cases own : signer = vote.voterId
  · subst own
    have choice := (restored.choices vote.voterId (vote.highQcRound, vote.highQcHash)).mpr
      List.mem_cons_self
    rw [if_pos rfl, ← restored.choices, choice]
  · have row_ne : (vote.height, vote.round, vote.voterId) ≠ (vote.height, vote.round, signer) := by
      simpa using Ne.symm own
    rw [if_neg row_ne, logged signer highQc own, List.mem_cons]
    exact (or_iff_right fun same => own (congrArg Prod.fst same)).symm

/-- A call without a timeout vote for the round keeps its reports, unless it prunes them. -/
theorem Counted.perform (counted : core.Counted height round reports) (call : Call H)
    (unlogged : ∀ vote, core.loggedTimeout call = some vote →
      (vote.height, vote.round) ≠ (height, round))
    (kept : ¬ Prunes (core.observed call) round)
    (collector : (core.perform call).timeoutVoteCollector.Tallies height round reports) :
    (core.perform call).Counted height round reports := by
  refine ⟨collector, fun signer highQc => ?_⟩
  rw [timeoutLog_perform, if_neg kept, ← counted.logged]
  cases logs : core.loggedTimeout call with
  | none => rfl
  | some vote =>
      have row_ne : (vote.height, vote.round, vote.voterId) ≠ (height, round, signer) := by
        intro same
        simp only [Prod.mk.injEq] at same
        exact unlogged vote logs (by rw [same.1, same.2.1])
      simp only [if_neg row_ne]

/-- A vote of another round keeps the reports. -/
theorem Counted.acceptTimeoutVote_other (counted : core.Counted height round reports)
    {vote : TimeoutVote H} (other : (vote.height, vote.round) ≠ (height, round)) :
    (core.acceptTimeoutVote vote).2.Counted height round reports := by
  refine counted.perform (.acceptTimeoutVote vote) (fun logged logs => ?_) ?_ ?_
  · rw [loggedTimeout] at logs
    cases answer : (core.acceptTimeoutVote vote).1 with
    | error message =>
        rw [answer] at logs
        cases logs
    | ok result =>
        rw [answer] at logs
        obtain rfl := Option.some.inj logs
        exact other
  · rintro ⟨_, observes, _⟩
    cases observes
  · rw [ConsensusCore.perform, acceptTimeoutVote]
    cases added : core.timeoutVoteCollector.addTimeoutVote vote core.validatorSet with
    | error message => exact counted.tallies
    | ok answer =>
        obtain ⟨tc, collector⟩ := answer
        obtain ⟨_, _, rfl, _⟩ := TimeoutVoteCollector.addTimeoutVote_eq_ok added
        simp only [timeoutVoteCollector_observeTc]
        exact counted.tallies.restoreTimeout_other other

omit [DecidableEq H] in
theorem makeTimeoutVote_of_error {localHeight localRound : ℕ} {message : String}
    {next : ConsensusCore H}
    (made : core.makeTimeoutVote localHeight localRound = (.error message, next)) :
    next = core := by
  rw [makeTimeoutVote] at made
  split_ifs at made
  · exact (Prod.mk.inj made).2.symm
  · cases (Prod.mk.inj made).1
  · exact (Prod.mk.inj made).2.symm

omit [DecidableEq H] in
theorem makeTimeoutVote_of_ok {localHeight localRound : ℕ} {vote : TimeoutVote H}
    {next : ConsensusCore H}
    (made : core.makeTimeoutVote localHeight localRound = (.ok vote, next)) :
    (vote.height, vote.round) = (localHeight, localRound) ∧
      (localHeight, localRound) ∉ core.localTimeoutRounds ∧
      vote.report = (core.localValidatorId, core.reportedQc) ∧
      vote.validatorSetHash = core.validatorSet.validatorSetHash := by
  rw [makeTimeoutVote] at made
  split_ifs at made with positive voted
  · cases (Prod.mk.inj made).1
  · obtain rfl := Except.ok.inj (Prod.mk.inj made).1
    exact ⟨rfl, voted, rfl, rfl⟩
  · cases (Prod.mk.inj made).1

/-- What an event does to the reports of a round: nothing, or it gives a vote of the round to a core
with the same tally. -/
def ActsOn (height round : ℕ) (reports : List (String × HighQc H)) (core : ConsensusCore H)
    (received : Option (TimeoutVote H × Except String (Option (TC H)))) (next : ConsensusCore H) :
    Prop :=
  (∀ item ∈ received, (item.1.height, item.1.round) ≠ (height, round)) ∧
      next.Counted height round reports ∨
    ∃ vote mid, received = some (vote, (acceptTimeoutVote mid vote).1) ∧
      (vote.height, vote.round) = (height, round) ∧ mid.validatorSet = core.validatorSet ∧
      mid.timeoutVoteCollector.Tallies height round reports ∧
      next.Counted height round
        (if (acceptTimeoutVote mid vote).1.isOk then vote.report :: reports else reports)

theorem Counted.advance_call (counted : core.Counted height round reports) (call : Call H)
    (undisturbed : Undisturbed height round core (.call call)) :
    ActsOn height round reports core (core.received (.call call)) (core.perform call) := by
  by_cases accepts : ∃ vote, call = .acceptTimeoutVote vote
  · obtain ⟨vote, rfl⟩ := accepts
    by_cases same : (vote.height, vote.round) = (height, round)
    · refine .inr ⟨vote, core, rfl, same, rfl, counted.tallies, ?_⟩
      obtain ⟨rfl, rfl⟩ := Prod.mk.inj same
      rw [ConsensusCore.perform]
      cases answer : (core.acceptTimeoutVote vote).1 with
      | error message =>
          rw [acceptTimeoutVote_of_error answer]
          exact counted
      | ok result =>
          exact counted_acceptTimeoutVote counted.tallies
            (fun signer highQc _ => counted.logged signer highQc) answer
    · refine .inl ⟨fun item member => ?_, counted.acceptTimeoutVote_other same⟩
      obtain rfl := Option.some.inj member
      exact same
  · have other : ∀ vote, call ≠ .acceptTimeoutVote vote :=
      fun vote call_eq => accepts ⟨vote, call_eq⟩
    have unreceived : core.received (.call call) = none := by
      cases call with
      | acceptTimeoutVote vote => exact absurd rfl (other vote)
      | _ => rfl
    have emits : core.loggedTimeout call = core.emittedTimeout call := by
      cases call with
      | acceptTimeoutVote vote => exact absurd rfl (other vote)
      | _ => rfl
    refine .inl ⟨unreceived ▸ forall_mem_none _, counted.perform call ?_ undisturbed.2 ?_⟩
    · rw [emits]
      exact undisturbed.1
    · rw [timeoutVoteCollector_perform core call other]
      exact counted.tallies

section LocalTimeout

variable {localHeight localRound : ℕ} {vote : TimeoutVote H} {next : ConsensusCore H}

theorem timeoutLog_makeTimeoutVote
    (made : core.makeTimeoutVote localHeight localRound = (.ok vote, next)) {signer : String}
    (other : (vote.height, vote.round, vote.voterId) ≠ (height, round, signer)) :
    next.store.timeoutLog.get? (height, round, signer) =
      core.store.timeoutLog.get? (height, round, signer) := by
  have logs : core.loggedTimeout (.makeTimeoutVote localHeight localRound) = some vote := by
    rw [loggedTimeout, made]
    rfl
  have next_eq : core.perform (.makeTimeoutVote localHeight localRound) = next := by
    rw [ConsensusCore.perform, made]
  have row := timeoutLog_perform core (.makeTimeoutVote localHeight localRound) height round signer
  rw [if_neg (by rintro ⟨_, observes, _⟩; cases observes), logs] at row
  simpa only [next_eq, if_neg other] using row

theorem exists_accepted_localTimeout
    (made : core.makeTimeoutVote localHeight localRound = (.ok vote, next))
    (tallies : next.timeoutVoteCollector.Tallies vote.height vote.round reports)
    (same_set : next.validatorSet = core.validatorSet)
    (consistent : ∀ highQc, (core.localValidatorId, highQc) ∈ reports →
      highQc = core.reportedQc) : ∃ result, (next.acceptTimeoutVote vote).1 = .ok result := by
  obtain ⟨_, _, report_eq, hash_eq⟩ := makeTimeoutVote_of_ok made
  have voter_eq : vote.voterId = core.localValidatorId := congrArg Prod.fst report_eq
  have answered : ∃ result, next.timeoutVoteCollector.addTimeoutVote vote next.validatorSet =
      .ok result := by
    rw [tallies.exists_addTimeoutVote_iff, same_set, report_eq, voter_eq]
    exact ⟨hash_eq, core.local_mem, consistent⟩
  obtain ⟨result, added⟩ := answered
  exact ⟨result.1, by rw [acceptTimeoutVote_fst, added]; rfl⟩

theorem Counted.advance_localTimeout (counted : core.Counted height round reports)
    (undisturbed : Undisturbed height round core (.localTimeout localHeight localRound))
    (made : core.makeTimeoutVote localHeight localRound = (.ok vote, next)) :
    ActsOn height round reports core (some (vote, (next.acceptTimeoutVote vote).1))
      (next.acceptTimeoutVote vote).2 := by
  have next_eq : core.perform (.makeTimeoutVote localHeight localRound) = next := by
    rw [ConsensusCore.perform, made]
  have same_set : next.validatorSet = core.validatorSet := next_eq ▸ (identity_perform core _).2.1
  have tallies : next.timeoutVoteCollector.Tallies height round reports := by
    rw [← next_eq, timeoutVoteCollector_perform]
    · exact counted.tallies
    · rintro _ call_eq
      cases call_eq
  obtain ⟨round_eq, unvoted, _⟩ := makeTimeoutVote_of_ok made
  by_cases same : (vote.height, vote.round) = (height, round)
  · refine .inr ⟨vote, next, rfl, same, same_set, tallies, ?_⟩
    have consistent : ∀ highQc, (core.localValidatorId, highQc) ∈ reports →
        highQc = core.reportedQc := fun highQc member =>
      undisturbed (round_eq.symm.trans same) (same ▸ round_eq ▸ unvoted) highQc
        ((counted.tallies.choices _ _).mpr member)
    obtain ⟨rfl, rfl⟩ := Prod.mk.inj same
    obtain ⟨result, accepted⟩ := exists_accepted_localTimeout made tallies same_set consistent
    rw [accepted]
    refine counted_acceptTimeoutVote tallies (fun signer highQc other => ?_) accepted
    have row_ne : (vote.height, vote.round, vote.voterId) ≠ (vote.height, vote.round, signer) := by
      simpa using Ne.symm other
    rw [timeoutLog_makeTimeoutVote made row_ne, counted.logged]
  · refine .inl ⟨fun item member => ?_, Counted.acceptTimeoutVote_other ⟨tallies, ?_⟩ same⟩
    · obtain rfl := Option.some.inj member
      exact same
    · intro signer highQc
      have row_ne : (vote.height, vote.round, vote.voterId) ≠ (height, round, signer) := by
        intro row_eq
        simp only [Prod.mk.injEq] at row_eq
        exact same (by rw [row_eq.1, row_eq.2.1])
      rw [timeoutLog_makeTimeoutVote made row_ne, counted.logged]

end LocalTimeout

theorem Counted.advance (counted : core.Counted height round reports) {event : TimeoutEvent H}
    (undisturbed : Undisturbed height round core event) :
    ActsOn height round reports core (core.received event) (core.advance event) := by
  cases event with
  | restart => exact .inl ⟨forall_mem_none _, counted.restart⟩
  | call call => exact counted.advance_call call undisturbed
  | localTimeout localHeight localRound =>
      cases made : core.makeTimeoutVote localHeight localRound with
      | mk answer next =>
          cases answer with
          | error message =>
              obtain rfl := makeTimeoutVote_of_error made
              simp only [ConsensusCore.advance, received, made]
              exact .inl ⟨forall_mem_none _, counted⟩
          | ok vote =>
              simp only [ConsensusCore.advance, received, made, ConsensusCore.perform]
              exact counted.advance_localTimeout undisturbed made

theorem validatorSet_advance (core : ConsensusCore H) (event : TimeoutEvent H) :
    (core.advance event).validatorSet = core.validatorSet := by
  cases event with
  | restart => exact validatorSet_restart core
  | call call => exact (identity_perform core call).2.1
  | localTimeout localHeight localRound =>
      have made_set := (identity_perform core (.makeTimeoutVote localHeight localRound)).2.1
      rw [perform] at made_set
      rw [advance]
      cases made : core.makeTimeoutVote localHeight localRound with
      | mk answer next =>
          rw [made] at made_set
          cases answer with
          | error message => exact made_set
          | ok vote => exact (identity_perform next (.acceptTimeoutVote vote)).2.1.trans made_set

theorem trace_cons_of_elsewhere {event : TimeoutEvent H} (rest : List (TimeoutEvent H))
    (elsewhere : ∀ item ∈ core.received event, (item.1.height, item.1.round) ≠ (height, round)) :
    trace height round core (event :: rest) = trace height round (core.advance event) rest := by
  rw [trace]
  cases received_eq : core.received event with
  | none => rfl
  | some item =>
      have outside : ¬ (item.1.height = height ∧ item.1.round = round) := by
        simpa using elsewhere item received_eq
      simp [outside]

theorem trace_cons_of_received {event : TimeoutEvent H} (rest : List (TimeoutEvent H))
    {vote : TimeoutVote H} {answer : Except String (Option (TC H))}
    (received_eq : core.received event = some (vote, answer))
    (round_eq : (vote.height, vote.round) = (height, round)) :
    trace height round core (event :: rest) =
      (vote, answer) :: trace height round (core.advance event) rest := by
  obtain ⟨rfl, rfl⟩ := Prod.mk.inj round_eq
  simp [trace, received_eq]

/-- Events between the votes of a round, restarts among them, change no answer to them. -/
theorem trace_answers {other : ConsensusCore H} (counted : core.Counted height round reports)
    (tallies : other.timeoutVoteCollector.Tallies height round reports)
    (same_set : other.validatorSet = core.validatorSet) {events : List (TimeoutEvent H)}
    (undisturbed : Runs.Along advance (Undisturbed height round) core events)
    (apart : HashesApart (reports ++ (trace height round core events).map fun item =>
      item.1.report)) :
    (trace height round core events).map Prod.snd =
      other.answers ((trace height round core events).map Prod.fst) := by
  induction events generalizing core other reports with
  | nil => rfl
  | cons event rest induction =>
      obtain ⟨event_undisturbed, rest_undisturbed⟩ := undisturbed
      have next_set := validatorSet_advance core event
      rcases counted.advance event_undisturbed with ⟨elsewhere, kept⟩ |
        ⟨vote, mid, received_eq, round_eq, mid_set, mid_tallies, next_counted⟩
      · rw [trace_cons_of_elsewhere rest elsewhere] at apart ⊢
        exact induction kept tallies (same_set.trans next_set.symm) rest_undisturbed apart
      · rw [trace_cons_of_received rest received_eq round_eq] at apart ⊢
        obtain ⟨rfl, rfl⟩ := Prod.mk.inj round_eq
        have answers_eq : (acceptTimeoutVote mid vote).1 = (other.acceptTimeoutVote vote).1 :=
          acceptTimeoutVote_congr mid_tallies tallies (same_set.trans mid_set.symm)
            (apart.mono fun report member => by
              simp only [List.map_cons, List.mem_append, List.mem_cons] at member ⊢
              tauto)
        have next_same : (other.acceptTimeoutVote vote).2.validatorSet =
            (core.advance event).validatorSet := by
          rw [validatorSet_acceptTimeoutVote, next_set, same_set]
        simp only [List.map_cons, answers, List.cons.injEq]
        refine ⟨answers_eq, ?_⟩
        rw [answers_eq] at next_counted
        cases answer : (other.acceptTimeoutVote vote).1 with
        | error message =>
            rw [answer] at next_counted
            rw [acceptTimeoutVote_of_error answer] at next_same ⊢
            exact induction next_counted tallies next_same rest_undisturbed
              (apart.mono fun report member => by
                simp only [List.map_cons, List.mem_append, List.mem_cons] at member ⊢
                exact member.imp_right Or.inr)
        | ok result =>
            rw [answer] at next_counted
            exact induction next_counted (acceptTimeoutVote_of_ok tallies answer).1 next_same
              rest_undisturbed (apart.mono fun report member => by
                simp only [Except.isOk, Except.toBool, if_true, List.map_cons, List.mem_append,
                  List.mem_cons] at member ⊢
                tauto)

end Restarts

omit [DecidableEq H] in
theorem counted_fresh (chainId epochId : ℕ) {localValidatorId : String}
    {validatorSet : ValidatorSet} (member : validatorSet.contains localValidatorId = true)
    (height round : ℕ) :
    (fresh (H := H) chainId epochId localValidatorId validatorSet member).Counted height round
      [] where
  tallies := TimeoutVoteCollector.tallies_empty height round
  logged := fun _ _ => iff_of_false nofun List.not_mem_nil

section Lone

/-- A timeout vote of the only validator for round 1. -/
def loneTimeout (highQcRound : Option ℕ) (highQcHash : Option SymbolicDigest) :
    TimeoutVote SymbolicDigest :=
  ⟨1, 0, 1, 1, "a", CoreSystem.loneSet.validatorSetHash, highQcRound, highQcHash, Nat.one_pos,
    Nat.one_pos, CoreSystem.a_ne⟩

theorem ofRound_loneTimeout (highQcRound : Option ℕ) (highQcHash : Option SymbolicDigest) :
    OfRound 1 0 1 1 (loneTimeout highQcRound highQcHash) := ⟨rfl, rfl, rfl, rfl⟩

end Lone

end ConsensusCore

end EZChain
