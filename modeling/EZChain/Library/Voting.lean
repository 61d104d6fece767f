import Mathlib.Data.Finset.Card
import Mathlib.Tactic.Common

/-!
# Staged voting with quorums

Members of a committee cast ballots for blocks in numbered rounds of a slot, each ballot for one
stage.  A block is certified for a stage when a quorum voted for it.  The module states a rule for
single ballots under which no slot ever has two blocks certified for the last stage, and proves
that from the intersection of quorums.
-/

namespace Voting

variable {V S B : Type*} [DecidableEq V]

/-- A set of members, at most a third of which (rounded down, one short) is faulty. -/
structure Committee (V : Type*) [DecidableEq V] where
  /-- All members. -/
  members : Finset V
  /-- Members that may deviate. -/
  faulty : Finset V
  /-- There is a member. -/
  nonempty : members.Nonempty
  /-- The bound on the faulty members. -/
  card_faulty_le : (members ∩ faulty).card ≤ (members.card - 1) / 3

namespace Committee

variable (committee : Committee V)

/-- Members that form a quorum. -/
def IsQuorum (signers : Finset V) : Prop :=
  signers ⊆ committee.members ∧ 2 * committee.members.card / 3 + 1 ≤ signers.card

variable {committee}

/-- Two quorums share a member that is not faulty. -/
theorem IsQuorum.exists_honest_inter {left right : Finset V} (quorum_left : committee.IsQuorum left)
    (quorum_right : committee.IsQuorum right) :
    ∃ member ∈ left, member ∈ right ∧ member ∉ committee.faulty := by
  obtain ⟨left_subset, left_card⟩ := quorum_left
  obtain ⟨right_subset, right_card⟩ := quorum_right
  have union_card : (left ∪ right).card ≤ committee.members.card :=
    Finset.card_le_card (Finset.union_subset left_subset right_subset)
  have inter_card := Finset.card_union_add_card_inter left right
  have positive := committee.nonempty.card_pos
  have bound := committee.card_faulty_le
  -- The common members outnumber the faulty ones.
  have larger : (committee.members ∩ committee.faulty).card < (left ∩ right).card := by omega
  obtain ⟨member, shared, correct⟩ := Finset.exists_mem_notMem_of_card_lt_card larger
  rw [Finset.mem_inter] at shared
  refine ⟨member, shared.1, shared.2, fun faulty => correct ?_⟩
  exact Finset.mem_inter.mpr ⟨left_subset shared.1, faulty⟩

theorem IsQuorum.exists_honest {signers : Finset V} (quorum : committee.IsQuorum signers) :
    ∃ member ∈ signers, member ∉ committee.faulty := by
  obtain ⟨member, signed, -, correct⟩ := quorum.exists_honest_inter quorum
  exact ⟨member, signed, correct⟩

end Committee

/-- One vote of a member. -/
structure Ballot (V S B : Type*) where
  /-- Member that voted. -/
  voter : V
  /-- Position that is voted on. -/
  slot : S
  /-- Attempt at the position. -/
  round : ℕ
  /-- Stage of the round. -/
  stage : ℕ
  /-- Block that is voted for. -/
  block : B

variable (committee : Committee V) (last : ℕ)

/-- A quorum voted for the block, as far as its correct members are concerned. -/
def Certified (log : List (Ballot V S B)) (slot : S) (round stage : ℕ) (block : B) : Prop :=
  ∃ signers, committee.IsQuorum signers ∧
    ∀ member ∈ signers, member ∉ committee.faulty → ⟨member, slot, round, stage, block⟩ ∈ log

/-- Rule for casting a ballot after the ballots of a log. -/
structure Admissible (log : List (Ballot V S B)) (ballot : Ballot V S B) : Prop where
  /-- One block in each stage of a round. -/
  consistent : ∀ earlier ∈ log, earlier.voter = ballot.voter → earlier.slot = ballot.slot →
    earlier.round = ballot.round → earlier.stage = ballot.stage → earlier.block = ballot.block
  /-- No return from a later round to another block. -/
  forward : ∀ earlier ∈ log, earlier.voter = ballot.voter → earlier.slot = ballot.slot →
    earlier.block ≠ ballot.block → earlier.round ≤ ballot.round
  /-- A stage follows a certificate for the stage before it. -/
  staged : ∀ stage, ballot.stage = stage + 1 →
    Certified committee log ballot.slot ballot.round stage ballot.block
  /-- After a vote in the last stage, another block needs a certificate that is not older. -/
  unlocked : ∀ earlier ∈ log, earlier.voter = ballot.voter → earlier.slot = ballot.slot →
    earlier.stage = last → earlier.block ≠ ballot.block →
      ∃ round stage, earlier.round ≤ round ∧
        Certified committee log ballot.slot round stage ballot.block

/-- Every ballot was admissible after the ballots before it. -/
def SoundLog (log : List (Ballot V S B)) : Prop :=
  ∀ before ballot after, log = before ++ ballot :: after →
    Admissible committee last before ballot

variable {committee last}

theorem Certified.mono {log extended : List (Ballot V S B)} (subset : log ⊆ extended) {slot : S}
    {round stage : ℕ} {block : B} (certified : Certified committee log slot round stage block) :
    Certified committee extended slot round stage block := by
  obtain ⟨signers, quorum, signed⟩ := certified
  exact ⟨signers, quorum, fun member mem correct => subset (signed member mem correct)⟩

theorem soundLog_nil : SoundLog committee last ([] : List (Ballot V S B)) := by
  intro before ballot after split
  simp at split

/-- Appending an admissible ballot keeps a log sound. -/
theorem SoundLog.snoc {log : List (Ballot V S B)} (sound : SoundLog committee last log)
    {ballot : Ballot V S B} (admissible : Admissible committee last log ballot) :
    SoundLog committee last (log ++ [ballot]) := by
  intro before earlier after split
  rcases List.eq_nil_or_concat after with rfl | ⟨rest, final, rfl⟩
  · obtain ⟨rfl, same⟩ := List.append_inj' split rfl
    obtain rfl : ballot = earlier := by simpa using same
    exact admissible
  · apply sound before earlier rest
    have split' : log ++ [ballot] = (before ++ earlier :: rest) ++ [final] := by simpa using split
    exact (List.append_inj' split' rfl).1

section Agreement

variable {log : List (Ballot V S B)}

theorem SoundLog.admissible_after (sound : SoundLog committee last log)
    {before after : List (Ballot V S B)} {ballot later : Ballot V S B}
    (split : log = before ++ ballot :: after) (mem : later ∈ after) :
    ∃ between, ballot ∈ between ∧ Admissible committee last between later := by
  obtain ⟨middle, rest, rfl⟩ := List.append_of_mem mem
  exact ⟨before ++ ballot :: middle, by simp, sound _ later rest (by simp [split])⟩

/-- Two ballots of one member in the same stage of a round are for the same block. -/
theorem SoundLog.block_eq (sound : SoundLog committee last log) {voter : V} {slot : S}
    {round stage : ℕ} {block other : B} (mem : ⟨voter, slot, round, stage, block⟩ ∈ log)
    (mem_other : ⟨voter, slot, round, stage, other⟩ ∈ log) : block = other := by
  obtain ⟨before, after, rfl⟩ := List.append_of_mem mem
  rcases List.mem_append.mp mem_other with earlier | later
  · exact ((sound before _ after rfl).consistent _ earlier rfl rfl rfl rfl).symm
  rcases List.mem_cons.mp later with same | later
  · simp only [Ballot.mk.injEq, true_and] at same
    exact same.symm
  · obtain ⟨between, cast, admissible⟩ := sound.admissible_after rfl later
    exact admissible.consistent _ cast rfl rfl rfl rfl

theorem SoundLog.block_eq_of_certified (sound : SoundLog committee last log) {slot : S}
    {round stage : ℕ} {block other : B} (certified : Certified committee log slot round stage block)
    (certified_other : Certified committee log slot round stage other) : block = other := by
  obtain ⟨signers, quorum, signed⟩ := certified
  obtain ⟨others, quorum_other, signed_other⟩ := certified_other
  obtain ⟨member, mem, mem_other, correct⟩ := quorum.exists_honest_inter quorum_other
  exact sound.block_eq (signed member mem correct) (signed_other member mem_other correct)

theorem SoundLog.certified_zero (sound : SoundLog committee last log) {slot : S} {round : ℕ}
    {block : B} (stage : ℕ) (certified : Certified committee log slot round stage block) :
    Certified committee log slot round 0 block := by
  induction stage with
  | zero => exact certified
  | succ stage induction =>
      obtain ⟨signers, quorum, signed⟩ := certified
      obtain ⟨member, mem, correct⟩ := quorum.exists_honest
      obtain ⟨before, after, rfl⟩ := List.append_of_mem (signed member mem correct)
      refine induction (((sound before _ after rfl).staged stage rfl).mono ?_)
      exact List.subset_append_left _ _

/-- A member that voted in the last stage for a finally certified block votes for no other block
in a later round. -/
theorem SoundLog.block_eq_of_later (sound : SoundLog committee last log) {slot : S} {round : ℕ}
    {block : B} (certified : Certified committee log slot round last block)
    (before : List (Ballot V S B)) (ballot : Ballot V S B) (after : List (Ballot V S B))
    (split : log = before ++ ballot :: after) (same_slot : ballot.slot = slot)
    (later : round < ballot.round)
    (voted : ⟨ballot.voter, slot, round, last, block⟩ ∈ log) : ballot.block = block := by
  -- Strong induction on the position of the ballot in the log.
  induction position : before.length using Nat.strong_induction_on generalizing before ballot after
    with
  | _ position induction =>
  by_contra different
  rw [split] at voted
  rcases List.mem_append.mp voted with earlier | following
  · obtain ⟨justified, stage, newer, justify⟩ := (sound before ballot after split).unlocked _
      earlier rfl same_slot.symm rfl (Ne.symm different)
    rw [same_slot] at justify
    have justify_log : Certified committee log slot justified stage ballot.block :=
      justify.mono (by rw [split]; exact List.subset_append_left _ _)
    rcases eq_or_lt_of_le newer with same_round | newer
    · obtain rfl : round = justified := same_round
      exact different (sound.block_eq_of_certified (sound.certified_zero stage justify_log)
        (sound.certified_zero last certified))
    · -- A common member voted for the other block in between.
      obtain ⟨signers, quorum, signed⟩ := justify
      obtain ⟨finals, quorum_final, signed_final⟩ := certified
      obtain ⟨member, mem, mem_final, correct⟩ := quorum.exists_honest_inter quorum_final
      obtain ⟨first, rest, found⟩ := List.append_of_mem (signed member mem correct)
      refine different (induction first.length ?_ first
        ⟨member, slot, justified, stage, ballot.block⟩ (rest ++ ballot :: after) ?_ rfl newer
        (signed_final member mem_final correct) rfl)
      · rw [← position, found]
        simp
      · rw [split, found]
        simp
  rcases List.mem_cons.mp following with same | following
  · have := congrArg Ballot.round same
    simp only at this
    omega
  · obtain ⟨between, cast, admissible⟩ := sound.admissible_after split following
    have older : ballot.round ≤ round := admissible.forward ballot cast rfl same_slot different
    omega

theorem SoundLog.agreement_of_le (sound : SoundLog committee last log) {slot : S}
    {round other_round : ℕ} {block other : B} (le : round ≤ other_round)
    (certified : Certified committee log slot round last block)
    (certified_other : Certified committee log slot other_round last other) : block = other := by
  rcases eq_or_lt_of_le le with rfl | later
  · exact sound.block_eq_of_certified certified certified_other
  · obtain ⟨signers, quorum, signed⟩ := id certified
    obtain ⟨others, quorum_other, signed_other⟩ := certified_other
    obtain ⟨member, mem, mem_other, correct⟩ := quorum.exists_honest_inter quorum_other
    obtain ⟨before, after, split⟩ := List.append_of_mem (signed_other member mem_other correct)
    exact (sound.block_eq_of_later certified before _ after split rfl later
      (signed member mem correct)).symm

/-- No slot has two different blocks certified for the last stage. -/
theorem SoundLog.agreement (sound : SoundLog committee last log) {slot : S}
    {round other_round : ℕ} {block other : B}
    (certified : Certified committee log slot round last block)
    (certified_other : Certified committee log slot other_round last other) : block = other := by
  rcases le_total round other_round with le | le
  · exact sound.agreement_of_le le certified certified_other
  · exact (sound.agreement_of_le le certified_other certified).symm

end Agreement

end Voting
