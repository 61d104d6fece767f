import Mathlib.Data.Finset.Sort
import Mathlib.Data.List.Sort
import EZChain.Consensus.Types
import EZChain.Library.Voting

/-!
# Validator sets

A validator set lists its members in the order of their ids, all with the same weight.  A quorum
has more than two thirds of the members, so any two quorums share a member that is not among a
faulty third.
-/

namespace EZChain

/-- `sorted(validators, key=lambda item: item.validator_id)`. -/
def sortValidators (validators : List ConsensusValidator) : List ConsensusValidator :=
  validators.insertionSort fun left right => left.validatorId ≤ right.validatorId

def computeValidatorSetHash {H : Type} [Crypto H] (validators : List ConsensusValidator) : H :=
  hashWithDomain "EZCHAIN_V2_VALIDATOR_SET"
    (.dict [("validators",
      .list ((sortValidators validators).map ConsensusValidator.canonicalize))])

/-- A nonempty set of validators of weight one. -/
structure ValidatorSet where
  /-- The members. -/
  validators : List ConsensusValidator
  /-- There is a member. -/
  nonempty : validators ≠ []
  /-- The members are listed in the order of their ids. -/
  sorted : validators.Pairwise fun left right => left.validatorId ≤ right.validatorId
  /-- No id occurs twice. -/
  nodup : (validators.map ConsensusValidator.validatorId).Nodup
  /-- All members have weight one. -/
  equalWeight : ∀ validator ∈ validators, validator.weight = 1

namespace ValidatorSet

/-- Build a validator set, with the checks of the constructor. -/
def fromValidators (validators : List ConsensusValidator) : Except String ValidatorSet :=
  if empty : validators = [] then
    .error "validators cannot be empty"
  else if nodup : ((sortValidators validators).map ConsensusValidator.validatorId).Nodup then
    if equalWeight : ∀ validator ∈ sortValidators validators, validator.weight = 1 then
      .ok
        { validators := sortValidators validators
          nonempty := by
            rw [ne_eq, ← List.length_eq_zero_iff, sortValidators, List.length_insertionSort,
              List.length_eq_zero_iff]
            exact empty
          sorted :=
            have : Std.Total fun left right : ConsensusValidator =>
                left.validatorId ≤ right.validatorId := ⟨fun _ _ => le_total _ _⟩
            have : IsTrans ConsensusValidator fun left right =>
                left.validatorId ≤ right.validatorId := ⟨fun _ _ _ => le_trans⟩
            List.pairwise_insertionSort _ validators
          nodup := nodup
          equalWeight := equalWeight }
    else .error "mvp validator set requires equal weight validators"
  else .error "validator_id must be unique"

variable (validatorSet : ValidatorSet)

def validatorSetHash {H : Type} [Crypto H] : H := computeValidatorSetHash validatorSet.validators

def quorumSize : ℕ := 2 * validatorSet.validators.length / 3 + 1

def get (validatorId : String) : Option ConsensusValidator :=
  validatorSet.validators.find? fun validator => validator.validatorId = validatorId

def contains (validatorId : String) : Bool := (validatorSet.get validatorId).isSome

def hasQuorum (signers : Finset String) : Bool :=
  validatorSet.quorumSize ≤ (signers.filter fun signer => validatorSet.contains signer).card

/-- The ids of the members. -/
def memberIds : Finset String :=
  (validatorSet.validators.map ConsensusValidator.validatorId).toFinset

variable {validatorSet}

theorem contains_iff {validatorId : String} :
    validatorSet.contains validatorId = true ↔ validatorId ∈ validatorSet.memberIds := by
  simp [contains, get, memberIds]

theorem hasQuorum_iff {signers : Finset String} :
    validatorSet.hasQuorum signers = true ↔ validatorSet.quorumSize ≤
      (signers.filter fun signer => validatorSet.contains signer = true).card :=
  decide_eq_true_iff

theorem hasQuorum_mono {signers others : Finset String} (subset : signers ⊆ others)
    (quorum : validatorSet.hasQuorum signers = true) : validatorSet.hasQuorum others = true := by
  rw [hasQuorum_iff] at quorum ⊢
  exact quorum.trans (Finset.card_le_card (Finset.filter_subset_filter _ subset))

theorem card_memberIds : validatorSet.memberIds.card = validatorSet.validators.length := by
  rw [memberIds, List.toFinset_card_of_nodup validatorSet.nodup, List.length_map]

/-- All members are a quorum. -/
theorem hasQuorum_memberIds : validatorSet.hasQuorum validatorSet.memberIds = true := by
  have members : (validatorSet.memberIds.filter fun signer =>
      validatorSet.contains signer = true) = validatorSet.memberIds :=
    Finset.filter_true_of_mem fun _ member => contains_iff.mpr member
  have positive := List.length_pos_of_ne_nil validatorSet.nonempty
  rw [hasQuorum_iff, members, card_memberIds, quorumSize]
  omega

/-- A member's id is set. -/
theorem id_ne_of_contains {validatorId : String}
    (member : validatorSet.contains validatorId = true) : validatorId ≠ "" := by
  simp only [contains_iff, memberIds, List.mem_toFinset, List.mem_map] at member
  obtain ⟨validator, -, rfl⟩ := member
  exact validator.validatorId_ne

/-- The committee of a validator set of which a bounded part is faulty. -/
def committee (validatorSet : ValidatorSet) (faulty : Finset String)
    (bound : (validatorSet.memberIds ∩ faulty).card ≤ (validatorSet.memberIds.card - 1) / 3) :
    Voting.Committee String where
  members := validatorSet.memberIds
  faulty := faulty
  nonempty := by
    rw [← Finset.card_pos, card_memberIds]
    exact List.length_pos_iff.mpr validatorSet.nonempty
  card_faulty_le := bound

variable {faulty : Finset String}
  {bound : (validatorSet.memberIds ∩ faulty).card ≤ (validatorSet.memberIds.card - 1) / 3}

/-- A set of members is a quorum of the committee when the code counts it as one. -/
theorem isQuorum_of_hasQuorum {signers : Finset String} (subset : signers ⊆ validatorSet.memberIds)
    (quorum : validatorSet.hasQuorum signers = true) :
    (validatorSet.committee faulty bound).IsQuorum signers := by
  have members : signers.filter (fun signer => validatorSet.contains signer = true) = signers :=
    Finset.filter_true_of_mem fun signer mem => contains_iff.mpr (subset mem)
  rw [hasQuorum_iff, members, quorumSize, ← card_memberIds] at quorum
  exact ⟨subset, quorum⟩

end ValidatorSet

end EZChain
