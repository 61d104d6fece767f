import EZChain.CanonicalBytes
import EZChain.Consensus.Agreement
import EZChain.DerSignatures
import EZChain.Library.LeastItem

/-!
# Proposer sortition

Every validator signs the sortition message of a round; the claim with the least score names the
proposer.  The score hashes the validator id and the output of a claim without a separator, so that
it determines the claim only because an output that passes the check is a digest.
-/

namespace EZChain

open Checks LeastItem

theorem Bytes32.eq_of_bytes_eq {left right : Bytes32} (bytes_eq : left.bytes = right.bytes) :
    left = right := by
  cases left
  cases right
  cases bytes_eq
  rfl

/-- A signed claim to propose in a round. -/
structure VRFProposerClaim where
  chainId : ℤ
  epochId : ℤ
  height : ℤ
  round : ℤ
  /-- The claimant. -/
  validatorId : String
  /-- Hash of the validator set of the claim. -/
  validatorSetHash : Bytes32
  /-- The output that the score hashes. -/
  vrfOutput : Bytes
  /-- The signature that the output hashes. -/
  vrfProof : Bytes
  nonneg : 0 ≤ chainId ∧ 0 ≤ epochId
  positive : 0 < height ∧ 0 < round
  validatorId_ne : validatorId ≠ ""
  vrfOutput_ne : vrfOutput ≠ []
  vrfProof_ne : vrfProof ≠ []

/-- Exceptions raised while a proposer is selected. -/
inductive SortitionError where
  | valueError (message : String)
  | encoding (error : EncodingError)
  | signature (error : DerError)
  deriving DecidableEq, Repr

/-- `SIGNED_SORTITION_PROOF_DOMAIN`. -/
def signedSortitionProofDomain : Bytes := utf8Bytes "EZCHAIN_V2_SIGNED_SORTITION_PROOF"

/-- `SIGNED_SORTITION_OUTPUT_DOMAIN`. -/
def signedSortitionOutputDomain : Bytes := utf8Bytes "EZCHAIN_V2_SIGNED_SORTITION_OUTPUT"

def buildProposerSortitionMessage (chainId epochId height round : ℤ) (seed : Bytes)
    (validatorSetHash : Bytes32) : Except SortitionError Bytes := do
  require (seed.length = 32) (.valueError "seed must be 32 bytes")
  require (0 ≤ chainId ∧ 0 ≤ epochId ∧ 0 < height ∧ 0 < round)
    (.valueError "invalid sortition numeric field")
  let payload ← (canonicalEncode (.dict
    [("chain_id", .int chainId), ("epoch_id", .int epochId), ("height", .int height),
      ("round", .int round), ("seed", .bytes seed),
      ("validator_set_hash", .bytes validatorSetHash.bytes)])).mapError .encoding
  return utf8Bytes "EZCHAIN_V2_VRF_PROPOSER" ++ payload

/-- The keyword arguments of a selection, except for the verifier. -/
structure SortitionArguments where
  /-- The members that may claim. -/
  validatorSet : ValidatorSet
  chainId : ℤ
  epochId : ℤ
  height : ℤ
  round : ℤ
  /-- The seed that claims sign. -/
  seed : Bytes

/-- A check of a claim, given the sortition message and a public key. -/
abbrev VRFVerifier := VRFProposerClaim → Bytes → Bytes → Except DerError Bool

section Digests

variable (sha256 : Bytes → Bytes32)

/-- What the score of a claim hashes. -/
def scoreInput (claim : VRFProposerClaim) (sortitionMessage : Bytes) : Bytes :=
  utf8Bytes "EZCHAIN_V2_PROPOSER_SCORE" ++ sortitionMessage ++ utf8Bytes claim.validatorId ++
    claim.vrfOutput

def claimScore (claim : VRFProposerClaim) (sortitionMessage : Bytes) : Bytes32 :=
  sha256 (scoreInput claim sortitionMessage)

def verifyMessageSecp256k1 (openssl : Bytes → Bytes → Bytes → Bool)
    (publicKeyPem message signature domain : Bytes) : Except DerError Bool :=
  verifyDigestSecp256k1 openssl publicKeyPem (sha256 (domain ++ message)).bytes signature

/-- What the output of a claim hashes. -/
def outputInput (claim : VRFProposerClaim) (sortitionMessage : Bytes) : Bytes :=
  signedSortitionOutputDomain ++ sortitionMessage ++ claim.vrfProof

def verifySignedProposerClaim (openssl : Bytes → Bytes → Bytes → Bool) : VRFVerifier :=
  fun claim sortitionMessage vrfPubkey => do
    let verified ← verifyMessageSecp256k1 sha256 openssl vrfPubkey sortitionMessage claim.vrfProof
      signedSortitionProofDomain
    if verified = true then
      return claim.vrfOutput = (sha256 (outputInput claim sortitionMessage)).bytes
    else return false

end Digests

namespace SortitionArguments

variable (H : Type) [Crypto H] (sha256 : Bytes → Bytes32) (arguments : SortitionArguments)
  (verifier : VRFVerifier) (sortitionMessage : Bytes)

/-- The hash of the validator set. -/
def validatorSetHash : Bytes32 :=
  Crypto.digestBytes (arguments.validatorSet.validatorSetHash : H)

/-- The key that verifies a claim, if the claim is for the round and its validator is known. -/
def claimPubkey (claim : VRFProposerClaim) : Option Bytes :=
  if claim.chainId ≠ arguments.chainId ∨ claim.epochId ≠ arguments.epochId then none
  else if claim.height ≠ arguments.height ∨ claim.round ≠ arguments.round then none
  else if claim.validatorSetHash ≠ arguments.validatorSetHash H then none
  else (arguments.validatorSet.get claim.validatorId).map ConsensusValidator.vrfPubkey

/-- One turn of the loop over the claims, which carries the best claim and its score. -/
def considerClaim (best : Option (VRFProposerClaim × Bytes32)) (claim : VRFProposerClaim) :
    Except DerError (Option (VRFProposerClaim × Bytes32)) :=
  match arguments.claimPubkey H claim with
  | none => .ok best
  | some vrfPubkey => do
      let verified ← verifier claim sortitionMessage vrfPubkey
      if verified = true then
        let score := claimScore sha256 claim sortitionMessage
        match best with
        | none => return some (claim, score)
        | some (_, bestScore) =>
            return if score.bytes < bestScore.bytes then some (claim, score) else best
      else return best

def selectBestProposer (claims : List VRFProposerClaim) :
    Except SortitionError (Option VRFProposerClaim) := do
  let sortitionMessage ← buildProposerSortitionMessage arguments.chainId arguments.epochId
    arguments.height arguments.round arguments.seed (arguments.validatorSetHash H)
  let best ← (claims.foldlM (arguments.considerClaim H sha256 verifier sortitionMessage)
    none).mapError .signature
  return best.map Prod.fst

/-! ## One claim -/

/-- The claim passes all checks. -/
def Passes (claim : VRFProposerClaim) : Prop :=
  ∃ vrfPubkey, arguments.claimPubkey H claim = some vrfPubkey ∧
    verifier claim sortitionMessage vrfPubkey = .ok true

/-- The verifier answers for the claim, or is not asked. -/
def Answered (claim : VRFProposerClaim) : Prop :=
  ∀ vrfPubkey ∈ arguments.claimPubkey H claim,
    ∃ verified, verifier claim sortitionMessage vrfPubkey = .ok verified

variable {H sha256 arguments verifier sortitionMessage}

theorem considerClaim_of_passes {claim : VRFProposerClaim}
    (passes : arguments.Passes H verifier sortitionMessage claim)
    (best : Option (VRFProposerClaim × Bytes32)) :
    arguments.considerClaim H sha256 verifier sortitionMessage best claim =
      .ok (some (best.elim (claim, claimScore sha256 claim sortitionMessage) fun current =>
        if (claimScore sha256 claim sortitionMessage).bytes < current.2.bytes then
          (claim, claimScore sha256 claim sortitionMessage) else current)) := by
  obtain ⟨vrfPubkey, key_eq, verified⟩ := passes
  rw [considerClaim, key_eq]
  refine bind_eq_ok.mpr ⟨true, verified, ?_⟩
  cases best with
  | none => rfl
  | some current =>
      simp only [if_true, Option.elim_some, pure_eq_ok]
      split <;> rfl

theorem considerClaim_of_not_passes {claim : VRFProposerClaim}
    (answered : arguments.Answered H verifier sortitionMessage claim)
    (refused : ¬ arguments.Passes H verifier sortitionMessage claim)
    (best : Option (VRFProposerClaim × Bytes32)) :
    arguments.considerClaim H sha256 verifier sortitionMessage best claim = .ok best := by
  rw [considerClaim]
  cases key_eq : arguments.claimPubkey H claim with
  | none => rfl
  | some vrfPubkey =>
      obtain ⟨verified, verifier_eq⟩ := answered vrfPubkey key_eq
      cases verified with
      | true => exact absurd ⟨vrfPubkey, key_eq, verifier_eq⟩ refused
      | false => exact bind_eq_ok.mpr ⟨false, verifier_eq, rfl⟩

theorem answered_of_considerClaim {claim : VRFProposerClaim}
    {best next : Option (VRFProposerClaim × Bytes32)}
    (considered : arguments.considerClaim H sha256 verifier sortitionMessage best claim =
      .ok next) :
    arguments.Answered H verifier sortitionMessage claim := by
  intro vrfPubkey key_eq
  rw [considerClaim, Option.mem_def.mp key_eq] at considered
  obtain ⟨verified, verifier_eq, _⟩ := bind_eq_ok.mp considered
  exact ⟨verified, verifier_eq⟩

/-! ## All claims -/

variable (H sha256 arguments verifier sortitionMessage) in
/-- The loop carries a claim that passes, has the least score, and stands beside its score. -/
structure Leads (claims : List VRFProposerClaim) (best : Option (VRFProposerClaim × Bytes32)) :
    Prop where
  scored : ∀ current ∈ best, current.2 = claimScore sha256 current.1 sortitionMessage
  selects : Selects (fun claim => (claimScore sha256 claim sortitionMessage).bytes)
    (arguments.Passes H verifier sortitionMessage) claims (best.map Prod.fst)

/-- A claim that passes leads when its score is below that of the leader. -/
theorem Leads.next {claims : List VRFProposerClaim} {claim : VRFProposerClaim}
    {best : Option (VRFProposerClaim × Bytes32)}
    (leads : arguments.Leads H sha256 verifier sortitionMessage claims best)
    (passes : arguments.Passes H verifier sortitionMessage claim) :
    arguments.Leads H sha256 verifier sortitionMessage (claims ++ [claim])
      (some (best.elim (claim, claimScore sha256 claim sortitionMessage) fun current =>
        if (claimScore sha256 claim sortitionMessage).bytes < current.2.bytes then
          (claim, claimScore sha256 claim sortitionMessage) else current)) := by
  cases best with
  | none =>
      have unpassed := leads.selects.none_iff.mp rfl
      refine ⟨fun current member => Option.mem_some_iff.mp member ▸ rfl, selects_last passes ?_⟩
      exact fun other member other_passes => absurd other_passes (unpassed other member)
  | some current =>
      have score_eq := leads.scored current rfl
      rw [Option.elim_some]
      by_cases below : (claimScore sha256 claim sortitionMessage).bytes < current.2.bytes
      · rw [if_pos below]
        refine ⟨fun scored member => Option.mem_some_iff.mp member ▸ rfl, selects_last passes ?_⟩
        intro other member other_passes
        have current_least := leads.selects.least current.1 rfl other member other_passes
        rw [score_eq] at below
        exact Std.le_trans (Std.le_of_lt below) current_least
      · rw [if_neg below]
        refine ⟨leads.scored, leads.selects.kept ?_⟩
        rw [← score_eq]
        exact Std.not_lt.mp below

variable (sha256) in
theorem exists_leads {claims : List VRFProposerClaim}
    (answered : ∀ claim ∈ claims, arguments.Answered H verifier sortitionMessage claim) :
    ∃ best, claims.foldlM (arguments.considerClaim H sha256 verifier sortitionMessage) none =
        .ok best ∧ arguments.Leads H sha256 verifier sortitionMessage claims best := by
  induction claims using List.reverseRecOn with
  | nil => exact ⟨none, rfl, forall_mem_none _, selects_nil⟩
  | append_singleton claims claim induction =>
      rw [List.forall_mem_append, List.forall_mem_singleton] at answered
      obtain ⟨best, folded, leads⟩ := induction answered.1
      simp only [List.foldlM_append, List.foldlM_cons, List.foldlM_nil, bind_eq_ok, pure_eq_ok,
        exists_eq_right]
      by_cases passes : arguments.Passes H verifier sortitionMessage claim
      · exact ⟨_, ⟨best, folded, considerClaim_of_passes passes best⟩, leads.next passes⟩
      · exact ⟨best, ⟨best, folded, considerClaim_of_not_passes answered.2 passes best⟩,
          leads.scored, leads.selects.refused passes⟩

theorem answered_of_foldlM {claims : List VRFProposerClaim}
    {start best : Option (VRFProposerClaim × Bytes32)}
    (folded : claims.foldlM (arguments.considerClaim H sha256 verifier sortitionMessage) start =
      .ok best) :
    ∀ claim ∈ claims, arguments.Answered H verifier sortitionMessage claim := by
  induction claims generalizing start with
  | nil => exact List.forall_mem_nil _
  | cons claim rest induction =>
      obtain ⟨next, considered, rest_folded⟩ := bind_eq_ok.mp folded
      exact List.forall_mem_cons.mpr ⟨answered_of_considerClaim considered, induction rest_folded⟩

/-! ## Signed claims -/

theorem claimPubkey_eq_some {claim : VRFProposerClaim} {vrfPubkey : Bytes}
    (key_eq : arguments.claimPubkey H claim = some vrfPubkey) :
    claim.chainId = arguments.chainId ∧ claim.epochId = arguments.epochId ∧
      claim.height = arguments.height ∧ claim.round = arguments.round ∧
      claim.validatorSetHash = arguments.validatorSetHash H := by
  rw [claimPubkey] at key_eq
  split_ifs at key_eq with chain round set_hash
  obtain ⟨chain_eq, epoch_eq⟩ := not_or.mp chain
  obtain ⟨height_eq, round_eq⟩ := not_or.mp round
  exact ⟨not_not.mp chain_eq, not_not.mp epoch_eq, not_not.mp height_eq, not_not.mp round_eq,
    not_not.mp set_hash⟩

end SortitionArguments

/-- The proof is a byte string behind whose end the signature parser looks for a tag. -/
def VRFProposerClaim.Overruns (claim : VRFProposerClaim) : Prop :=
  8 ≤ claim.vrfProof.length ∧ EndsTooSoon claim.vrfProof

/-- The strings that are hashed for a claim do not collide with those hashed for another. -/
def CollisionFree (sha256 : Bytes → Bytes32) (inputs : List Bytes) : Prop :=
  ∀ left ∈ inputs, ∀ right ∈ inputs, sha256 left = sha256 right → left = right

/-- The strings that a selection hashes for claims, messages for the signature check apart. -/
def hashedInputs (claims : List VRFProposerClaim) (sortitionMessage : Bytes) : List Bytes :=
  claims.flatMap fun claim =>
    [scoreInput claim sortitionMessage, outputInput claim sortitionMessage]

section Signed

variable {sha256 : Bytes → Bytes32} {openssl : Bytes → Bytes → Bytes → Bool}
  {claim : VRFProposerClaim} {sortitionMessage vrfPubkey : Bytes}

theorem exists_bind_eq_ok_iff {ε α β : Type} {computation : Except ε α} {next : α → Except ε β}
    (succeeds : ∀ value, ∃ result, next value = .ok result) :
    (∃ result, (computation >>= next) = .ok result) ↔ ∃ value, computation = .ok value := by
  constructor
  · rintro ⟨result, bound⟩
    obtain ⟨value, computed, _⟩ := bind_eq_ok.mp bound
    exact ⟨value, computed⟩
  · rintro ⟨value, computed⟩
    obtain ⟨result, next_eq⟩ := succeeds value
    exact ⟨result, bind_eq_ok.mpr ⟨value, computed, next_eq⟩⟩

/-- The signature check stops on a proof that ends too soon, and on no other. -/
theorem exists_verifySignedProposerClaim_iff :
    (∃ verified, verifySignedProposerClaim sha256 openssl claim sortitionMessage vrfPubkey =
      .ok verified) ↔ ¬ claim.Overruns := by
  rw [VRFProposerClaim.Overruns, ← parseEcdsaDer_eq_indexError_iff]
  have digest_length := (sha256 (signedSortitionProofDomain ++ sortitionMessage)).length_eq
  rw [verifySignedProposerClaim, exists_bind_eq_ok_iff fun _ => by split <;> exact ⟨_, rfl⟩,
    verifyMessageSecp256k1, verifyDigestSecp256k1, if_neg (not_not.mpr digest_length),
    isLowSSignature]
  cases parsed : parseEcdsaDer claim.vrfProof with
  | error error =>
      rcases parseEcdsaDer_error parsed with rfl | ⟨message, rfl⟩
      · refine iff_of_false ?_ (not_not.mpr rfl)
        rintro ⟨_, answered⟩
        cases answered
      · refine iff_of_true ⟨false, rfl⟩ fun raised => ?_
        cases raised
  | ok pair =>
      obtain ⟨r, s⟩ := pair
      refine iff_of_true ?_ fun raised => ?_
      · cases low : decide (0 < s ∧ s ≤ lowSMax) with
        | true =>
            simp only [bind, Except.bind, low]
            exact ⟨_, rfl⟩
        | false =>
            simp only [bind, Except.bind, low]
            exact ⟨_, rfl⟩
      · cases raised

theorem vrfOutput_of_verified
    (verified : verifySignedProposerClaim sha256 openssl claim sortitionMessage vrfPubkey =
      .ok true) :
    claim.vrfOutput = (sha256 (outputInput claim sortitionMessage)).bytes := by
  obtain ⟨signed, _, outcome⟩ := bind_eq_ok.mp verified
  cases signed with
  | true => simpa using outcome
  | false => cases outcome

end Signed

namespace SortitionArguments

variable {H : Type} [Crypto H] {sha256 : Bytes → Bytes32} {openssl : Bytes → Bytes → Bytes → Bool}
  {arguments : SortitionArguments} {sortitionMessage : Bytes}

/-- Two claims that pass and have the same score are the same claim. -/
theorem eq_of_claimScore_eq {claims : List VRFProposerClaim}
    (apart : CollisionFree sha256 (hashedInputs claims sortitionMessage))
    {left right : VRFProposerClaim} (left_mem : left ∈ claims) (right_mem : right ∈ claims)
    (left_passes : arguments.Passes H (verifySignedProposerClaim sha256 openssl) sortitionMessage
      left)
    (right_passes : arguments.Passes H (verifySignedProposerClaim sha256 openssl) sortitionMessage
      right)
    (score_eq : claimScore sha256 left sortitionMessage =
      claimScore sha256 right sortitionMessage) : left = right := by
  obtain ⟨left_key, left_key_eq, left_verified⟩ := left_passes
  obtain ⟨right_key, right_key_eq, right_verified⟩ := right_passes
  have left_output := vrfOutput_of_verified left_verified
  have right_output := vrfOutput_of_verified right_verified
  have hashed : ∀ {claim}, claim ∈ claims →
      scoreInput claim sortitionMessage ∈ hashedInputs claims sortitionMessage ∧
        outputInput claim sortitionMessage ∈ hashedInputs claims sortitionMessage := by
    intro claim member
    simp only [hashedInputs, List.mem_flatMap]
    exact ⟨⟨claim, member, List.mem_cons_self⟩,
      ⟨claim, member, List.mem_cons_of_mem _ (List.mem_singleton_self _)⟩⟩
  -- both outputs have 32 bytes, so the id and the output can be read off the hashed string
  have inputs_eq := apart _ (hashed left_mem).1 _ (hashed right_mem).1 score_eq
  rw [scoreInput, scoreInput] at inputs_eq
  obtain ⟨fronts_eq, outputs_eq⟩ := List.append_inj' inputs_eq (by
    rw [left_output, right_output, Bytes32.length_eq, Bytes32.length_eq])
  have ids_eq : left.validatorId = right.validatorId :=
    utf8Bytes_injective (List.append_cancel_left fronts_eq)
  have digests_eq : sha256 (outputInput left sortitionMessage) =
      sha256 (outputInput right sortitionMessage) :=
    Bytes32.eq_of_bytes_eq (left_output.symm.trans (outputs_eq.trans right_output))
  have proofs_eq : left.vrfProof = right.vrfProof :=
    List.append_cancel_left (apart _ (hashed left_mem).2 _ (hashed right_mem).2 digests_eq)
  obtain ⟨chain_eq, epoch_eq, height_eq, round_eq, set_eq⟩ := claimPubkey_eq_some left_key_eq
  obtain ⟨chain_eq', epoch_eq', height_eq', round_eq', set_eq'⟩ := claimPubkey_eq_some right_key_eq
  cases left
  cases right
  rw [VRFProposerClaim.mk.injEq]
  exact ⟨chain_eq.trans chain_eq'.symm, epoch_eq.trans epoch_eq'.symm,
    height_eq.trans height_eq'.symm, round_eq.trans round_eq'.symm, ids_eq,
    set_eq.trans set_eq'.symm, outputs_eq, proofs_eq⟩

variable (H sha256 openssl arguments) in
/-- The outcome is a claim that passes and has the least score, or none when no claim passes, and
another list of claims has the same outcome. -/
def SelectsBest (sortitionMessage : Bytes) (claims others : List VRFProposerClaim) : Prop :=
  ∃ best, arguments.selectBestProposer H sha256 (verifySignedProposerClaim sha256 openssl) claims =
      .ok best ∧
    Selects (fun claim => (claimScore sha256 claim sortitionMessage).bytes)
      (arguments.Passes H (verifySignedProposerClaim sha256 openssl) sortitionMessage) claims best ∧
    arguments.selectBestProposer H sha256 (verifySignedProposerClaim sha256 openssl) others =
      .ok best

theorem answered_iff {claim : VRFProposerClaim} :
    arguments.Answered H (verifySignedProposerClaim sha256 openssl) sortitionMessage claim ↔
      ((arguments.claimPubkey H claim).isSome = true → ¬ claim.Overruns) := by
  simp only [Answered, exists_verifySignedProposerClaim_iff, Option.isSome_iff_exists,
    forall_exists_index, Option.mem_def]

variable (sha256) in
/-- A selection whose message can be built ends when every claim is answered, and only then. -/
theorem exists_selectBestProposer {verifier : VRFVerifier}
    (built : buildProposerSortitionMessage arguments.chainId arguments.epochId arguments.height
      arguments.round arguments.seed (arguments.validatorSetHash H) = .ok sortitionMessage)
    {claims : List VRFProposerClaim}
    (answered : ∀ claim ∈ claims, arguments.Answered H verifier sortitionMessage claim) :
    ∃ best, arguments.selectBestProposer H sha256 verifier claims = .ok best ∧
      Selects (fun claim => (claimScore sha256 claim sortitionMessage).bytes)
        (arguments.Passes H verifier sortitionMessage) claims best := by
  obtain ⟨best, folded, leads⟩ := exists_leads sha256 answered
  refine ⟨best.map Prod.fst, ?_, leads.selects⟩
  simp only [selectBestProposer, bind_eq_ok, mapError_eq_ok, pure_eq_ok]
  exact ⟨sortitionMessage, built, best, folded, rfl⟩

theorem answered_of_selectBestProposer {verifier : VRFVerifier}
    (built : buildProposerSortitionMessage arguments.chainId arguments.epochId arguments.height
      arguments.round arguments.seed (arguments.validatorSetHash H) = .ok sortitionMessage)
    {claims : List VRFProposerClaim} {best : Option VRFProposerClaim}
    (selected : arguments.selectBestProposer H sha256 verifier claims = .ok best) :
    ∀ claim ∈ claims, arguments.Answered H verifier sortitionMessage claim := by
  simp only [selectBestProposer, built, bind_eq_ok, mapError_eq_ok, Except.ok.injEq,
    exists_eq_left'] at selected
  obtain ⟨_, folded, _⟩ := selected
  exact answered_of_foldlM folded

/-- The selection is a function of the passing claims exactly when no proof of a claim that reaches
its verification ends too soon. -/
theorem selectsBest_iff_noneOverruns
    (built : buildProposerSortitionMessage arguments.chainId arguments.epochId arguments.height
      arguments.round arguments.seed (arguments.validatorSetHash H) = .ok sortitionMessage)
    {claims others : List VRFProposerClaim}
    (apart : CollisionFree sha256 (hashedInputs claims sortitionMessage))
    (same : ∀ claim, claim ∈ claims ∧ arguments.Passes H
        (verifySignedProposerClaim sha256 openssl) sortitionMessage claim ↔
      claim ∈ others ∧ arguments.Passes H
        (verifySignedProposerClaim sha256 openssl) sortitionMessage claim) :
    arguments.SelectsBest H sha256 openssl sortitionMessage claims others ↔
      ∀ claim ∈ claims ++ others, (arguments.claimPubkey H claim).isSome = true →
        ¬ claim.Overruns := by
  have answers_iff : (∀ claim ∈ claims ++ others, (arguments.claimPubkey H claim).isSome = true →
      ¬ claim.Overruns) ↔ ∀ claim ∈ claims ++ others, arguments.Answered H
        (verifySignedProposerClaim sha256 openssl) sortitionMessage claim :=
    forall₂_congr fun _ _ => answered_iff.symm
  rw [answers_iff, List.forall_mem_append]
  constructor
  · rintro ⟨best, selected, _, other_selected⟩
    exact ⟨answered_of_selectBestProposer built selected,
      answered_of_selectBestProposer built other_selected⟩
  · rintro ⟨answered, other_answered⟩
    obtain ⟨best, selected, selects⟩ := exists_selectBestProposer sha256 built answered
    obtain ⟨other_best, other_selected, other_selects⟩ :=
      exists_selectBestProposer sha256 built other_answered
    have best_eq : best = other_best := by
      apply selects.unique other_selects same
      intro left left_mem left_passes right right_mem right_passes bytes_eq
      exact eq_of_claimScore_eq apart left_mem right_mem left_passes right_passes
        (Bytes32.eq_of_bytes_eq bytes_eq)
    exact ⟨best, selected, selects, best_eq ▸ other_selected⟩

section Examples

/-- A digest that tells strings apart by their length. -/
def lengthDigest (input : Bytes) : Bytes32 :=
  ⟨List.replicate 32 (UInt8.ofNat input.length), List.length_replicate⟩

/-- Round 1 of height 1 for a validator on its own. -/
def loneArguments : SortitionArguments :=
  ⟨CoreSystem.loneSet, 1, 0, 1, 1, List.replicate 32 0⟩

def loneMessage : Bytes :=
  (buildProposerSortitionMessage 1 0 1 1 (List.replicate 32 0)
    (loneArguments.validatorSetHash SymbolicDigest)).toOption.getD []

theorem loneMessage_built : buildProposerSortitionMessage 1 0 1 1 (List.replicate 32 0)
    (loneArguments.validatorSetHash SymbolicDigest) = .ok loneMessage := by
  have built : (buildProposerSortitionMessage 1 0 1 1 (List.replicate 32 0)
      (loneArguments.validatorSetHash SymbolicDigest)).toOption.isSome = true := by decide +kernel
  rw [loneMessage]
  cases message_eq : buildProposerSortitionMessage 1 0 1 1 (List.replicate 32 0)
      (loneArguments.validatorSetHash SymbolicDigest) with
  | error error =>
      rw [message_eq] at built
      cases built
  | ok message => rfl

/-- A claim of the only validator whose output is the digest of its proof. -/
def loneClaim (vrfProof : Bytes) (vrfProof_ne : vrfProof ≠ []) : VRFProposerClaim where
  chainId := 1
  epochId := 0
  height := 1
  round := 1
  validatorId := "a"
  validatorSetHash := loneArguments.validatorSetHash SymbolicDigest
  vrfOutput := (lengthDigest (signedSortitionOutputDomain ++ loneMessage ++ vrfProof)).bytes
  vrfProof := vrfProof
  nonneg := ⟨by decide, by decide⟩
  positive := ⟨by decide, by decide⟩
  validatorId_ne := CoreSystem.a_ne
  vrfOutput_ne := List.cons_ne_nil _ _
  vrfProof_ne := vrfProof_ne

/-- A signature with both integers 1. -/
def signedClaim : VRFProposerClaim :=
  loneClaim [0x30, 0x06, 0x02, 0x01, 0x01, 0x02, 0x01, 0x01] (List.cons_ne_nil _ _)

/-- An empty sequence with a long length field. -/
def emptyClaim : VRFProposerClaim :=
  loneClaim [0x30, 0x86, 0, 0, 0, 0, 0, 0] (List.cons_ne_nil _ _)

/-- A claim is selected, also when it is given twice. -/
theorem selectsBest_signedClaim :
    loneArguments.SelectsBest SymbolicDigest lengthDigest (fun _ _ _ => true) loneMessage
      [signedClaim] [signedClaim, signedClaim] := by
  have apart : CollisionFree lengthDigest (hashedInputs [signedClaim] loneMessage) := by
    rw [CollisionFree]
    decide +kernel
  refine (selectsBest_iff_noneOverruns loneMessage_built apart fun claim => ?_).mpr ?_
  · simp
  · intro claim member _
    obtain rfl : claim = signedClaim := by simpa using member
    rw [VRFProposerClaim.Overruns, ← parseEcdsaDer_eq_indexError_iff]
    have parsed : parseEcdsaDer signedClaim.vrfProof = .ok (1, 1) := rfl
    rw [parsed]
    exact fun raised => by cases raised

/-- A claim that fails its checks stops the selection. -/
theorem not_selectsBest_emptyClaim :
    ¬ loneArguments.Passes SymbolicDigest
        (verifySignedProposerClaim lengthDigest fun _ _ _ => true) loneMessage emptyClaim ∧
      ¬ loneArguments.SelectsBest SymbolicDigest lengthDigest (fun _ _ _ => true) loneMessage
        [signedClaim] [signedClaim, emptyClaim] := by
  have unanswered : ¬ loneArguments.Answered SymbolicDigest
      (verifySignedProposerClaim lengthDigest fun _ _ _ => true) loneMessage emptyClaim := by
    rw [answered_iff, VRFProposerClaim.Overruns, ← parseEcdsaDer_eq_indexError_iff]
    exact fun answered => answered rfl rfl
  constructor
  · rintro ⟨vrfPubkey, key_eq, verified⟩
    refine unanswered fun other other_eq => ⟨true, ?_⟩
    rw [Option.mem_def.mp other_eq] at key_eq
    rw [Option.some.inj key_eq]
    exact verified
  · rintro ⟨best, _, _, selected⟩
    exact unanswered (answered_of_selectBestProposer loneMessage_built selected emptyClaim
      (List.mem_cons_of_mem _ (List.mem_singleton_self _)))

end Examples

end SortitionArguments

end EZChain
