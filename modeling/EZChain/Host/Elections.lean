import EZChain.Consensus.Sortition
import EZChain.Library.Runs

/-!
# Proposer elections

A host that elects the proposer of a round asks all validators for their signed claims and takes the
least one.  A signature is drawn at random, and with it the output that the score hashes, so that a
validator keeps the claim that it made for a height, a round and a seed, and gives it to everyone
who asks.  All hosts then elect the same proposer, in whatever order they ask, until a validator
loses its claims in a restart.
-/

namespace EZChain

open Checks Runs LeastItem

/-! ## Signing a claim -/

/-- `VRFProposerClaim(...)`, with the checks of `__post_init__`. -/
def VRFProposerClaim.of (chainId epochId height round : ℤ) (validatorId : String)
    (validatorSetHash : Bytes32) (vrfOutput vrfProof : Bytes) :
    Except SortitionError VRFProposerClaim :=
  if nonneg : 0 ≤ chainId ∧ 0 ≤ epochId then
    if positive : 0 < height ∧ 0 < round then
      if validatorId_ne : validatorId ≠ "" then
        if vrfOutput_ne : vrfOutput ≠ [] then
          if vrfProof_ne : vrfProof ≠ [] then
            .ok ⟨chainId, epochId, height, round, validatorId, validatorSetHash, vrfOutput,
              vrfProof, nonneg, positive, validatorId_ne, vrfOutput_ne, vrfProof_ne⟩
          else .error (.valueError "vrf_proof must be set")
        else .error (.valueError "vrf_output must be set")
      else .error (.valueError "validator_id must be set")
    else .error (.valueError "height and round must be positive")
  else .error (.valueError "invalid vrf claim numeric field")

/-- `build_signed_proposer_claim`.  The signature is what openssl returns for the digest of the
message; it differs from call to call. -/
def buildSignedProposerClaim (sha256 : Bytes → Bytes32) (chainId epochId height round : ℤ)
    (validatorId : String) (validatorSetHash : Bytes32) (seed : Bytes)
    (signature : Except String Bytes) : Except SortitionError VRFProposerClaim := do
  let sortitionMessage ←
    buildProposerSortitionMessage chainId epochId height round seed validatorSetHash
  let signed ← signature.mapError .valueError
  let proof ← (normalizeLowS signed).mapError .signature
  let output := (sha256 (signedSortitionOutputDomain ++ sortitionMessage ++ proof)).bytes
  VRFProposerClaim.of chainId epochId height round validatorId validatorSetHash output proof

/-! ## Hosts -/

/-- What the elections of a network agree on. -/
structure SortitionConfig where
  /-- The chain. -/
  chainId : ℤ
  /-- The epoch. -/
  epochId : ℤ
  /-- The members that are elected from. -/
  validatorSet : ValidatorSet

/-- `V2ConsensusHost`, as far as elections go. -/
structure SortitionHost where
  /-- The id of the host and of its validator. -/
  nodeId : String
  /-- The settings that the elections share. -/
  config : SortitionConfig
  /-- The host is in mvp mode, with a core and a signing key. -/
  enabled : Bool
  /-- The height of its chain. -/
  currentHeight : ℕ
  /-- The round of its pacemaker. -/
  currentRound : ℕ
  /-- The claims that were made, by height, round and seed. -/
  sortitionClaims : OrderedDict (ℤ × ℤ × Bytes) VRFProposerClaim

/-- The answer to a sortition claim request. -/
inductive ClaimReply where
  | refused (error : String)
  | claimed (claim : VRFProposerClaim)

/-- What becomes of a message to a peer and of its reply. -/
inductive PeerDelivery where
  | undelivered (message : String)
  | unanswered (message : String)
  | answered

/-- The arguments of `select_mvp_proposer`. -/
structure ElectionCall where
  /-- The peers that are asked, in order. -/
  consensusPeerIds : List String
  /-- The seed of the election. -/
  seed : Bytes
  /-- The height, if it is not the next one. -/
  height : Option ℤ
  /-- The round, if it is not the current one. -/
  round : Option ℤ

/-- What happens around an election: the signatures that openssl would draw for a validator, and the
delivery of the messages. -/
structure ElectionInput where
  /-- What openssl draws for a validator. -/
  signatures : String → Except String Bytes
  /-- What becomes of the messages to a peer. -/
  deliveries : String → PeerDelivery

/-- What `select_mvp_proposer` returns. -/
structure ProposerSelection where
  /-- The elected proposer. -/
  selectedProposerId : String
  /-- The peers with the proposer in front. -/
  orderedConsensusPeerIds : List String
  height : ℤ
  round : ℤ
  seed : Bytes
  /-- The number of claims that were compared. -/
  claimsTotal : ℕ

namespace SortitionHost

variable (H : Type) [Crypto H] (sha256 : Bytes → Bytes32)

/-- `_build_mvp_sortition_claim`: a claim that was made is kept. -/
def buildMvpSortitionClaim (host : SortitionHost) (key : ℤ × ℤ × Bytes)
    (signature : Except String Bytes) : Except SortitionError VRFProposerClaim × SortitionHost :=
  if host.enabled = false then (.error (.valueError "consensus_mvp_disabled"), host)
  else
    match host.sortitionClaims.get? key with
    | some claim => (.ok claim, host)
    | none =>
        match buildSignedProposerClaim sha256 host.config.chainId host.config.epochId key.1 key.2.1
            host.nodeId (Crypto.digestBytes (host.config.validatorSet.validatorSetHash : H)) key.2.2
            signature with
        | .error error => (.error error, host)
        | .ok claim =>
            (.ok claim, { host with sortitionClaims := host.sortitionClaims.set key claim })

/-- `_on_consensus_sortition_claim`. -/
def onConsensusSortitionClaim (host : SortitionHost) (key : ℤ × ℤ × Bytes)
    (signature : Except String Bytes) : Except SortitionError ClaimReply × SortitionHost :=
  if host.enabled = false then (.ok (.refused "consensus_mvp_disabled"), host)
  else if key.2.2.length ≠ 32 then (.ok (.refused "invalid_sortition_seed"), host)
  else
    match host.buildMvpSortitionClaim H sha256 key signature with
    | (.error error, after) => (.error error, after)
    | (.ok claim, after) => (.ok (.claimed claim), after)

/-- The height, round and seed of an election; the next height and the current round by default. -/
def electionKey (host : SortitionHost) (call : ElectionCall) : ℤ × ℤ × Bytes :=
  (call.height.getD (host.currentHeight + 1), call.round.getD (max 1 host.currentRound), call.seed)

/-- What a selection of the host is about. -/
def arguments (host : SortitionHost) (key : ℤ × ℤ × Bytes) : SortitionArguments :=
  ⟨host.config.validatorSet, host.config.chainId, host.config.epochId, key.1, key.2.1, key.2.2⟩

end SortitionHost

/-- Consensus hosts by their ids. -/
abbrev SortitionFleet : Type := OrderedDict String SortitionHost

namespace SortitionFleet

variable (H : Type) [Crypto H] (sha256 : Bytes → Bytes32)
  (openssl : Bytes → Bytes → Bytes → Bool)

/-- Ask a peer for its claim. -/
def requestClaim (fleet : SortitionFleet) (key : ℤ × ℤ × Bytes) (input : ElectionInput)
    (peerId : String) : Except SortitionError VRFProposerClaim × SortitionFleet :=
  match fleet.get? peerId with
  | none => (.error (.valueError ("unknown_peer:" ++ peerId)), fleet)
  | some peer =>
      match input.deliveries peerId with
      | .undelivered message => (.error (.valueError message), fleet)
      | .unanswered message =>
          (.error (.valueError message), fleet.set peerId
            (peer.onConsensusSortitionClaim H sha256 key (input.signatures peerId)).2)
      | .answered =>
          let replied := peer.onConsensusSortitionClaim H sha256 key (input.signatures peerId)
          match replied.1 with
          | .error error => (.error error, fleet.set peerId replied.2)
          | .ok (.refused _) =>
              (.error (.valueError ("sortition_claim_failed:" ++ peerId)),
                fleet.set peerId replied.2)
          | .ok (.claimed claim) => (.ok claim, fleet.set peerId replied.2)

/-- The loop over the peers in `select_mvp_proposer`. -/
def collectClaims (askerId : String) (key : ℤ × ℤ × Bytes) (input : ElectionInput) :
    List String → SortitionFleet → Except SortitionError (List VRFProposerClaim) × SortitionFleet
  | [], fleet => (.ok [], fleet)
  | peerId :: rest, fleet =>
      if peerId = askerId then collectClaims askerId key input rest fleet
      else
        match requestClaim H sha256 fleet key input peerId with
        | (.error error, after) => (.error error, after)
        | (.ok claim, after) =>
            match collectClaims askerId key input rest after with
            | (.error error, last) => (.error error, last)
            | (.ok claims, last) => (.ok (claim :: claims), last)

/-- `select_mvp_proposer` of a host in the fleet; one that is not there does nothing. -/
def selectMvpProposer (fleet : SortitionFleet) (askerId : String) (call : ElectionCall)
    (input : ElectionInput) : Except SortitionError ProposerSelection × SortitionFleet :=
  match fleet.get? askerId with
  | none => (.error (.valueError ("unknown_peer:" ++ askerId)), fleet)
  | some host =>
      if host.enabled = false then (.error (.valueError "consensus_mvp_disabled"), fleet)
      else if call.seed.length ≠ 32 then (.error (.valueError "seed must be 32 bytes"), fleet)
      else
        let key := host.electionKey call
        match host.buildMvpSortitionClaim H sha256 key (input.signatures askerId) with
        | (.error error, _) => (.error error, fleet)
        | (.ok localClaim, signed) =>
            match collectClaims H sha256 askerId key input call.consensusPeerIds
                (fleet.set askerId signed) with
            | (.error error, after) => (.error error, after)
            | (.ok claims, after) =>
                match (host.arguments key).selectBestProposer H sha256
                    (verifySignedProposerClaim sha256 openssl) (localClaim :: claims) with
                | .error error => (.error error, after)
                | .ok none => (.error (.valueError "missing_valid_sortition_winner"), after)
                | .ok (some winner) =>
                    (.ok
                      { selectedProposerId := winner.validatorId
                        orderedConsensusPeerIds := winner.validatorId ::
                          call.consensusPeerIds.filter fun peerId => peerId ≠ winner.validatorId
                        height := key.1
                        round := key.2.1
                        seed := call.seed
                        claimsTotal := claims.length + 1 }, after)

/-- What happens in a fleet. -/
inductive Event where
  /-- A host elects a proposer. -/
  | elect (askerId : String) (call : ElectionCall) (input : ElectionInput)
  /-- A host gets a claim request from elsewhere. -/
  | request (peerId : String) (key : ℤ × ℤ × Bytes) (signature : Except String Bytes)
  /-- A block or a round goes by. -/
  | advance (peerId : String) (currentHeight currentRound : ℕ)
  /-- A host starts anew and has no claims. -/
  | restart (peerId : String)

/-- Change a host of the fleet. -/
def modify (fleet : SortitionFleet) (peerId : String) (change : SortitionHost → SortitionHost) :
    SortitionFleet :=
  match fleet.get? peerId with
  | none => fleet
  | some host => fleet.set peerId (change host)

/-- The fleet after an event. -/
def step (fleet : SortitionFleet) : Event → SortitionFleet
  | .elect askerId call input =>
      (selectMvpProposer H sha256 openssl fleet askerId call input).2
  | .request peerId key signature => fleet.modify peerId fun host =>
      (host.onConsensusSortitionClaim H sha256 key signature).2
  | .advance peerId currentHeight currentRound => fleet.modify peerId fun host =>
      { host with currentHeight := currentHeight, currentRound := currentRound }
  | .restart peerId => fleet.modify peerId fun host => { host with sortitionClaims := ∅ }

end SortitionFleet

/-! ## Kept claims -/

namespace SortitionHost

/-- A host goes on with its settings and its claims. -/
structure Continues (host next : SortitionHost) : Prop where
  config : next.config = host.config
  enabled : next.enabled = host.enabled
  kept : ∀ key claim, host.sortitionClaims.get? key = some claim →
    next.sortitionClaims.get? key = some claim

theorem Continues.refl (host : SortitionHost) : host.Continues host := ⟨rfl, rfl, fun _ _ => id⟩

theorem Continues.trans {host next last : SortitionHost} (first : host.Continues next)
    (second : next.Continues last) : host.Continues last where
  config := second.config.trans first.config
  enabled := second.enabled.trans first.enabled
  kept key claim found := second.kept key claim (first.kept key claim found)

variable {H : Type} [Crypto H] {sha256 : Bytes → Bytes32} {host : SortitionHost}
  {key : ℤ × ℤ × Bytes} {signature : Except String Bytes}

theorem continues_buildMvpSortitionClaim :
    host.Continues (host.buildMvpSortitionClaim H sha256 key signature).2 := by
  rw [buildMvpSortitionClaim]
  split
  · exact .refl host
  · split
    · exact .refl host
    next missing =>
      split
      · exact .refl host
      · refine ⟨rfl, rfl, fun other claim found => ?_⟩
        have different : key ≠ other := by
          rintro rfl
          rw [missing] at found
          cases found
        exact (OrderedDict.get?_set_of_ne _ different _).trans found

theorem continues_onConsensusSortitionClaim :
    host.Continues (host.onConsensusSortitionClaim H sha256 key signature).2 := by
  have built : host.Continues (host.buildMvpSortitionClaim H sha256 key signature).2 :=
    continues_buildMvpSortitionClaim
  rw [onConsensusSortitionClaim]
  split
  · exact .refl host
  · split
    · exact .refl host
    · split <;> rename_i outcome <;> rw [outcome] at built <;> exact built

theorem kept_of_buildMvpSortitionClaim {claim : VRFProposerClaim} {after : SortitionHost}
    (built : host.buildMvpSortitionClaim H sha256 key signature = (.ok claim, after)) :
    after.enabled = true ∧ after.sortitionClaims.get? key = some claim := by
  rw [buildMvpSortitionClaim] at built
  split at built
  · cases built
  next works =>
    have works : host.enabled = true := Bool.not_eq_false _ ▸ works
    split at built
    next kept =>
      cases built
      exact ⟨works, kept⟩
    · split at built
      · cases built
      · cases built
        exact ⟨works, OrderedDict.get?_set_self _ _ _⟩

theorem kept_of_onConsensusSortitionClaim {claim : VRFProposerClaim} {after : SortitionHost}
    (replied : host.onConsensusSortitionClaim H sha256 key signature =
      (.ok (.claimed claim), after)) :
    after.enabled = true ∧ after.sortitionClaims.get? key = some claim := by
  rw [onConsensusSortitionClaim] at replied
  split at replied
  · cases replied
  · split at replied
    · cases replied
    · split at replied
      · cases replied
      next built =>
        cases replied
        exact kept_of_buildMvpSortitionClaim built

theorem buildMvpSortitionClaim_of_kept (enabled : host.enabled = true) {claim : VRFProposerClaim}
    (kept : host.sortitionClaims.get? key = some claim) :
    host.buildMvpSortitionClaim H sha256 key signature = (.ok claim, host) := by
  have works : ¬ host.enabled = false := by
    rw [enabled]
    exact Bool.true_eq_false_eq_False
  rw [buildMvpSortitionClaim, if_neg works, kept]

theorem onConsensusSortitionClaim_of_kept (enabled : host.enabled = true)
    (length : key.2.2.length = 32) {claim : VRFProposerClaim}
    (kept : host.sortitionClaims.get? key = some claim) :
    host.onConsensusSortitionClaim H sha256 key signature = (.ok (.claimed claim), host) := by
  have works : ¬ host.enabled = false := by
    rw [enabled]
    exact Bool.true_eq_false_eq_False
  rw [onConsensusSortitionClaim, if_neg works, if_neg (not_not.mpr length),
    buildMvpSortitionClaim_of_kept enabled kept]

end SortitionHost

namespace SortitionFleet

/-- The host of an id goes on. -/
def Continues (fleet next : SortitionFleet) (peerId : String) : Prop :=
  ∀ host, fleet.get? peerId = some host →
    ∃ after, next.get? peerId = some after ∧ host.Continues after

/-- The host of an id keeps a claim. -/
def Keeps (fleet : SortitionFleet) (key : ℤ × ℤ × Bytes) (peerId : String)
    (claim : VRFProposerClaim) : Prop :=
  ∃ host, fleet.get? peerId = some host ∧ host.enabled = true ∧
    host.sortitionClaims.get? key = some claim

variable {fleet next last : SortitionFleet} {peerId other : String} {host after : SortitionHost}
  {key : ℤ × ℤ × Bytes} {claim : VRFProposerClaim}

theorem Continues.refl (fleet : SortitionFleet) (peerId : String) :
    fleet.Continues fleet peerId :=
  fun host found => ⟨host, found, .refl host⟩

theorem Continues.trans (first : fleet.Continues next peerId)
    (second : next.Continues last peerId) : fleet.Continues last peerId := by
  intro host found
  obtain ⟨middle, middle_found, continues⟩ := first host found
  obtain ⟨after, after_found, continues_after⟩ := second middle middle_found
  exact ⟨after, after_found, continues.trans continues_after⟩

theorem continues_set (found : fleet.get? peerId = some host) (continues : host.Continues after)
    (other : String) : fleet.Continues (fleet.set peerId after) other := by
  intro otherHost otherFound
  by_cases same : peerId = other
  · subst same
    obtain rfl := Option.some.inj (found.symm.trans otherFound)
    exact ⟨after, OrderedDict.get?_set_self _ _ _, continues⟩
  · exact ⟨otherHost, (OrderedDict.get?_set_of_ne _ same _).trans otherFound, .refl otherHost⟩

theorem continues_modify {change : SortitionHost → SortitionHost}
    (continues : ∀ host : SortitionHost, host.Continues (change host)) (other : String) :
    fleet.Continues (fleet.modify peerId change) other := by
  rw [modify]
  split
  · exact .refl fleet other
  next host found => exact continues_set found (continues host) other

theorem Keeps.of_continues (keeps : fleet.Keeps key peerId claim)
    (continues : fleet.Continues next peerId) : next.Keeps key peerId claim := by
  obtain ⟨host, found, enabled, kept⟩ := keeps
  obtain ⟨after, after_found, onwards⟩ := continues host found
  exact ⟨after, after_found, onwards.enabled.trans enabled, onwards.kept key claim kept⟩

theorem Keeps.unique {others : VRFProposerClaim} (keeps : fleet.Keeps key peerId claim)
    (keeps_others : fleet.Keeps key peerId others) : claim = others := by
  obtain ⟨host, found, -, kept⟩ := keeps
  obtain ⟨same, same_found, -, same_kept⟩ := keeps_others
  obtain rfl := Option.some.inj (found.symm.trans same_found)
  exact Option.some.inj (kept.symm.trans same_kept)

variable {H : Type} [Crypto H] {sha256 : Bytes → Bytes32}
  {openssl : Bytes → Bytes → Bytes → Bool} {input : ElectionInput} {askerId : String}

theorem continues_requestClaim (other : String) :
    fleet.Continues (requestClaim H sha256 fleet key input peerId).2 other := by
  rw [requestClaim]
  split
  · exact .refl fleet other
  next peer found =>
    have replied : fleet.Continues (fleet.set peerId (peer.onConsensusSortitionClaim H sha256 key
        (input.signatures peerId)).2) other :=
      continues_set found SortitionHost.continues_onConsensusSortitionClaim other
    split
    · exact .refl fleet other
    · exact replied
    · dsimp only
      split <;> exact replied

theorem keeps_of_requestClaim
    (answered : requestClaim H sha256 fleet key input peerId = (.ok claim, next)) :
    next.Keeps key peerId claim := by
  rw [requestClaim] at answered
  split at answered
  · cases answered
  next peer found =>
    split at answered
    · cases answered
    · cases answered
    · dsimp only at answered
      split at answered
      · cases answered
      · cases answered
      next replied =>
        cases answered
        exact ⟨_, OrderedDict.get?_set_self _ _ _,
          SortitionHost.kept_of_onConsensusSortitionClaim (Prod.ext replied rfl)⟩

theorem requestClaim_of_keeps (keeps : fleet.Keeps key peerId claim)
    (length : key.2.2.length = 32) (answered : input.deliveries peerId = .answered) :
    requestClaim H sha256 fleet key input peerId = (.ok claim, fleet) := by
  obtain ⟨peer, found, enabled, kept⟩ := keeps
  have same : fleet.set peerId peer = fleet := (OrderedDict.set_eq_self_iff _ _ _).mpr found
  simp only [requestClaim, found, answered,
    SortitionHost.onConsensusSortitionClaim_of_kept enabled length kept, same]

/-! ## Collecting claims -/

theorem continues_collectClaims (peerIds : List String) (other : String) :
    fleet.Continues (collectClaims H sha256 askerId key input peerIds fleet).2 other := by
  induction peerIds generalizing fleet with
  | nil => exact .refl fleet other
  | cons peerId rest induction =>
      rw [collectClaims]
      split
      · exact induction
      · have requested : fleet.Continues (requestClaim H sha256 fleet key input peerId).2 other :=
          continues_requestClaim other
        split
        next outcome =>
          rw [outcome] at requested
          exact requested
        next after outcome =>
          rw [outcome] at requested
          have collected : after.Continues
              (collectClaims H sha256 askerId key input rest after).2 other := induction
          split <;> rename_i rest_outcome <;> rw [rest_outcome] at collected <;>
            exact requested.trans collected

/-- Every peer but the asker keeps the claim that is collected from it. -/
theorem keeps_of_collectClaims {peerIds : List String} {claims : List VRFProposerClaim}
    (collected : collectClaims H sha256 askerId key input peerIds fleet = (.ok claims, next)) :
    List.Forall₂ (next.Keeps key) (peerIds.filter fun peerId => peerId ≠ askerId) claims := by
  induction peerIds generalizing fleet claims with
  | nil =>
      cases collected
      exact .nil
  | cons peerId rest induction =>
      rw [collectClaims] at collected
      split at collected
      next is_asker =>
        rw [List.filter_cons_of_neg (by simpa using is_asker)]
        exact induction collected
      next other =>
        split at collected
        · cases collected
        next claim after requested =>
          split at collected
          · cases collected
          next rest_collected =>
            cases collected
            rw [List.filter_cons_of_pos (by simpa using other)]
            have onwards : after.Continues next peerId := by
              have continues : after.Continues
                  (collectClaims H sha256 askerId key input rest after).2 peerId :=
                continues_collectClaims rest peerId
              rwa [rest_collected] at continues
            exact .cons ((keeps_of_requestClaim requested).of_continues onwards)
              (induction rest_collected)

theorem collectClaims_of_keeps {peerIds : List String} (length : key.2.2.length = 32)
    (keeps : ∀ peerId ∈ peerIds, peerId ≠ askerId → ∃ claim, fleet.Keeps key peerId claim)
    (answered : ∀ peerId ∈ peerIds, input.deliveries peerId = .answered) :
    ∃ claims, collectClaims H sha256 askerId key input peerIds fleet = (.ok claims, fleet) := by
  induction peerIds with
  | nil => exact ⟨[], rfl⟩
  | cons peerId rest induction =>
      obtain ⟨keeps_first, keeps_rest⟩ := List.forall_mem_cons.mp keeps
      obtain ⟨answered_first, answered_rest⟩ := List.forall_mem_cons.mp answered
      obtain ⟨claims, collected⟩ := induction keeps_rest answered_rest
      rw [collectClaims]
      split
      · exact ⟨claims, collected⟩
      next other =>
        obtain ⟨claim, keeps_claim⟩ := keeps_first other
        rw [requestClaim_of_keeps keeps_claim length answered_first]
        simp only [collected]
        exact ⟨claim :: claims, rfl⟩

/-! ## Electing -/

variable {call : ElectionCall} {selection : ProposerSelection}

theorem continues_selectMvpProposer (other : String) :
    fleet.Continues (selectMvpProposer H sha256 openssl fleet askerId call input).2 other := by
  rw [selectMvpProposer]
  split
  · exact .refl fleet other
  next host found =>
    split
    · exact .refl fleet other
    · split
      · exact .refl fleet other
      · dsimp only
        have signed : host.Continues (host.buildMvpSortitionClaim H sha256 (host.electionKey call)
            (input.signatures askerId)).2 := SortitionHost.continues_buildMvpSortitionClaim
        split
        · exact .refl fleet other
        next after built =>
          rw [built] at signed
          have collected : Continues (fleet.set askerId after) (collectClaims H sha256 askerId
              (host.electionKey call) input call.consensusPeerIds (fleet.set askerId after)).2
              other := continues_collectClaims call.consensusPeerIds other
          split
          next outcome =>
            rw [outcome] at collected
            exact (continues_set found signed other).trans collected
          next outcome =>
            rw [outcome] at collected
            split <;> exact (continues_set found signed other).trans collected

theorem continues_step {event : Event} (undisturbed : event ≠ .restart peerId) :
    fleet.Continues (step H sha256 openssl fleet event) peerId := by
  cases event with
  | elect askerId call input => exact continues_selectMvpProposer peerId
  | request other key signature =>
      exact continues_modify (fun _ => SortitionHost.continues_onConsensusSortitionClaim) peerId
  | advance other currentHeight currentRound =>
      refine continues_modify (fun host => ?_) peerId
      exact ⟨rfl, rfl, fun _ _ => id⟩
  | restart other =>
      intro host found
      have different : other ≠ peerId := fun same => undisturbed (congrArg Event.restart same)
      refine ⟨host, ?_, .refl host⟩
      rw [step, modify]
      split
      · exact found
      · exact (OrderedDict.get?_set_of_ne _ different _).trans found

theorem continues_run {events : List Event}
    (undisturbed : ∀ event ∈ events, event ≠ .restart peerId) :
    fleet.Continues (events.foldl (step H sha256 openssl) fleet) peerId := by
  induction events generalizing fleet with
  | nil => exact .refl fleet peerId
  | cons event rest induction =>
      obtain ⟨event_undisturbed, rest_undisturbed⟩ := List.forall_mem_cons.mp undisturbed
      exact (continues_step event_undisturbed).trans (induction rest_undisturbed)

/-- An election ends well on the kept claims of the asker and the other peers. -/
theorem keeps_of_elected (found : fleet.get? askerId = some host)
    (elected : selectMvpProposer H sha256 openssl fleet askerId call input =
      (.ok selection, next)) :
    call.seed.length = 32 ∧ ∃ localClaim claims winner,
      next.Keeps (host.electionKey call) askerId localClaim ∧
      List.Forall₂ (next.Keeps (host.electionKey call))
        (call.consensusPeerIds.filter fun peerId => peerId ≠ askerId) claims ∧
      (host.arguments (host.electionKey call)).selectBestProposer H sha256
        (verifySignedProposerClaim sha256 openssl) (localClaim :: claims) = .ok (some winner) ∧
      winner.validatorId = selection.selectedProposerId := by
  simp only [selectMvpProposer, found] at elected
  split at elected
  · cases elected
  · split at elected
    · cases elected
    next length =>
      refine ⟨not_not.mp length, ?_⟩
      split at elected
      · cases elected
      next localClaim signed built =>
        split at elected
        · cases elected
        next claims after collected =>
          split at elected
          · cases elected
          · cases elected
          next winner selected =>
            cases elected
            have kept : Keeps (fleet.set askerId signed) (host.electionKey call) askerId
                localClaim :=
              ⟨signed, OrderedDict.get?_set_self _ _ _,
                SortitionHost.kept_of_buildMvpSortitionClaim built⟩
            have onwards : Continues (fleet.set askerId signed) next askerId := by
              have continues : Continues (fleet.set askerId signed) (collectClaims H sha256 askerId
                  (host.electionKey call) input call.consensusPeerIds
                  (fleet.set askerId signed)).2 askerId := continues_collectClaims _ askerId
              rwa [collected] at continues
            exact ⟨localClaim, claims, winner, kept.of_continues onwards,
              keeps_of_collectClaims collected, selected, rfl⟩

variable (H sha256 openssl) in
/-- An election among hosts that all keep claims and answer selects among these claims. -/
theorem selectMvpProposer_of_keeps (found : fleet.get? askerId = some host)
    (length : call.seed.length = 32)
    (keeps : ∀ peerId ∈ askerId :: call.consensusPeerIds,
      ∃ claim, fleet.Keeps (host.electionKey call) peerId claim)
    (answered : ∀ peerId ∈ call.consensusPeerIds, input.deliveries peerId = .answered) :
    ∃ localClaim claims, fleet.Keeps (host.electionKey call) askerId localClaim ∧
      List.Forall₂ (fleet.Keeps (host.electionKey call))
        (call.consensusPeerIds.filter fun peerId => peerId ≠ askerId) claims ∧
      ∀ winner, (host.arguments (host.electionKey call)).selectBestProposer H sha256
          (verifySignedProposerClaim sha256 openssl) (localClaim :: claims) = .ok (some winner) →
        ∃ again, selectMvpProposer H sha256 openssl fleet askerId call input =
          (.ok again, fleet) ∧ again.selectedProposerId = winner.validatorId := by
  obtain ⟨keeps_asker, keeps_peers⟩ := List.forall_mem_cons.mp keeps
  obtain ⟨localClaim, keeps_local⟩ := keeps_asker
  obtain ⟨same, same_found, enabled, kept⟩ := id keeps_local
  obtain rfl := Option.some.inj (found.symm.trans same_found)
  have length_key : (host.electionKey call).2.2.length = 32 := length
  obtain ⟨claims, collected⟩ : ∃ claims, collectClaims H sha256 askerId (host.electionKey call)
      input call.consensusPeerIds fleet = (.ok claims, fleet) :=
    collectClaims_of_keeps length_key (fun peerId member _ => keeps_peers peerId member) answered
  refine ⟨localClaim, claims, keeps_local, keeps_of_collectClaims collected, ?_⟩
  intro winner selected
  have works : ¬ host.enabled = false := by
    rw [enabled]
    exact Bool.true_eq_false_eq_False
  have unchanged : fleet.set askerId host = fleet := (OrderedDict.set_eq_self_iff _ _ _).mpr found
  simp only [selectMvpProposer, found, if_neg works, length,
    SortitionHost.buildMvpSortitionClaim_of_kept enabled kept, unchanged, collected, selected]
  exact ⟨_, rfl, rfl⟩

/-! ## Elections agree -/

/-- The claims that the members keep. -/
def keptClaims (fleet : SortitionFleet) (key : ℤ × ℤ × Bytes) (members : List String) :
    List VRFProposerClaim :=
  members.filterMap fun peerId => (fleet.get? peerId).bind fun host => host.sortitionClaims.get? key

theorem mem_keptClaims {members : List String} (member : peerId ∈ members)
    (keeps : fleet.Keeps key peerId claim) : claim ∈ fleet.keptClaims key members := by
  obtain ⟨host, found, -, kept⟩ := keeps
  refine List.mem_filterMap.mpr ⟨peerId, member, ?_⟩
  rw [found]
  exact kept

/-- The collected claims are those that the members keep. -/
theorem mem_collected_iff {peerIds : List String} {localClaim : VRFProposerClaim}
    {claims : List VRFProposerClaim} (keeps_local : fleet.Keeps key askerId localClaim)
    (keeps_claims : List.Forall₂ (fleet.Keeps key)
      (peerIds.filter fun peerId => peerId ≠ askerId) claims) :
    claim ∈ localClaim :: claims ↔ ∃ peerId ∈ askerId :: peerIds, fleet.Keeps key peerId claim := by
  constructor
  · intro member
    rcases List.mem_cons.mp member with rfl | collected
    · exact ⟨askerId, List.mem_cons_self, keeps_local⟩
    · obtain ⟨peerId, peer_mem, keeps⟩ := exists_related keeps_claims.flip collected
      exact ⟨peerId, List.mem_cons_of_mem _ (List.mem_filter.mp peer_mem).1, keeps⟩
  · rintro ⟨peerId, member, keeps⟩
    by_cases is_asker : peerId = askerId
    · subst is_asker
      rw [keeps.unique keeps_local]
      exact List.mem_cons_self
    · have listed := (List.mem_cons.mp member).resolve_left is_asker
      obtain ⟨other, other_mem, keeps_other⟩ := exists_related keeps_claims
        (List.mem_filter.mpr ⟨listed, decide_eq_true is_asker⟩)
      rw [keeps.unique keeps_other]
      exact List.mem_cons_of_mem _ other_mem

/-- A selection among the same claims has the same winner. -/
theorem selects_same {arguments : SortitionArguments} {claims others kept : List VRFProposerClaim}
    {winner : VRFProposerClaim}
    (selected : arguments.selectBestProposer H sha256 (verifySignedProposerClaim sha256 openssl)
      claims = .ok (some winner))
    (same : ∀ claim, claim ∈ claims ↔ claim ∈ others) (all_kept : claims ⊆ kept)
    (apart : ∀ sortitionMessage, buildProposerSortitionMessage arguments.chainId arguments.epochId
        arguments.height arguments.round arguments.seed (arguments.validatorSetHash H) =
          .ok sortitionMessage → CollisionFree sha256 (hashedInputs kept sortitionMessage)) :
    arguments.selectBestProposer H sha256 (verifySignedProposerClaim sha256 openssl) others =
      .ok (some winner) := by
  obtain ⟨sortitionMessage, built, -⟩ := bind_eq_ok.mp selected
  have answered := SortitionArguments.answered_of_selectBestProposer built selected
  obtain ⟨best, best_selected, selects⟩ :=
    SortitionArguments.exists_selectBestProposer sha256 built answered
  obtain rfl := Except.ok.inj (best_selected.symm.trans selected)
  obtain ⟨other, other_selected, other_selects⟩ :=
    SortitionArguments.exists_selectBestProposer sha256 built
      fun claim member => answered claim ((same claim).mpr member)
  have winner_eq : some winner = other := by
    apply selects.unique other_selects (fun claim => and_congr_left' (same claim))
    intro left left_mem left_passes right right_mem right_passes bytes_eq
    exact SortitionArguments.eq_of_claimScore_eq (apart sortitionMessage built) (all_kept left_mem)
      (all_kept right_mem) left_passes right_passes (Bytes32.eq_of_bytes_eq bytes_eq)
  rw [other_selected, winner_eq]

/-- An election of another host for the same height, round and seed among the same members, all of
which answer. -/
structure Repeats (askerId otherId : String) (host otherHost : SortitionHost)
    (call otherCall : ElectionCall) (otherInput : ElectionInput) : Prop where
  config : otherHost.config = host.config
  key : otherHost.electionKey otherCall = host.electionKey call
  members : ∀ peerId, peerId ∈ otherId :: otherCall.consensusPeerIds ↔
    peerId ∈ askerId :: call.consensusPeerIds
  answered : ∀ peerId ∈ otherCall.consensusPeerIds, otherInput.deliveries peerId = .answered

/-- Once a host has elected a proposer, every later election for the same height, round and seed
among the same members elects the same proposer, whoever asks, in whatever order, whatever
signatures would be drawn, and whatever has happened meanwhile, as long as no member was
restarted. -/
theorem later_election_agrees {otherId : String} {otherHost : SortitionHost}
    {otherCall : ElectionCall} {otherInput : ElectionInput} {events : List Event}
    (asks : fleet.get? askerId = some host)
    (elected : selectMvpProposer H sha256 openssl fleet askerId call input = (.ok selection, next))
    (undisturbed : ∀ event ∈ events, ∀ peerId ∈ askerId :: call.consensusPeerIds,
      event ≠ .restart peerId)
    (asksAgain : OrderedDict.get? (events.foldl (step H sha256 openssl) next) otherId =
      some otherHost)
    (repeats : Repeats askerId otherId host otherHost call otherCall otherInput)
    (apart : ∀ sortitionMessage, buildProposerSortitionMessage host.config.chainId
        host.config.epochId (host.electionKey call).1 (host.electionKey call).2.1 call.seed
        ((host.arguments (host.electionKey call)).validatorSetHash H) = .ok sortitionMessage →
      CollisionFree sha256 (hashedInputs (next.keptClaims (host.electionKey call)
        (askerId :: call.consensusPeerIds)) sortitionMessage)) :
    ∃ again, selectMvpProposer H sha256 openssl (events.foldl (step H sha256 openssl) next) otherId
        otherCall otherInput = (.ok again, events.foldl (step H sha256 openssl) next) ∧
      again.selectedProposerId = selection.selectedProposerId := by
  let later := events.foldl (step H sha256 openssl) next
  obtain ⟨length, localClaim, claims, winner, keeps_local, keeps_claims, selected, winner_eq⟩ :=
    keeps_of_elected asks elected
  have mem_claims_iff : ∀ claim, claim ∈ localClaim :: claims ↔ ∃ peerId ∈
      askerId :: call.consensusPeerIds, next.Keeps (host.electionKey call) peerId claim :=
    fun claim => mem_collected_iff keeps_local keeps_claims
  have all_keep : ∀ peerId ∈ askerId :: call.consensusPeerIds, ∃ claim,
      next.Keeps (host.electionKey call) peerId claim := by
    intro peerId member
    by_cases is_asker : peerId = askerId
    · rw [is_asker]
      exact ⟨localClaim, keeps_local⟩
    · have listed := (List.mem_cons.mp member).resolve_left is_asker
      obtain ⟨claim, -, keeps⟩ := exists_related keeps_claims
        (List.mem_filter.mpr ⟨listed, decide_eq_true is_asker⟩)
      exact ⟨claim, keeps⟩
  have still_keeps : ∀ peerId ∈ askerId :: call.consensusPeerIds, ∀ claim,
      next.Keeps (host.electionKey call) peerId claim →
        Keeps later (host.electionKey call) peerId claim :=
    fun peerId member claim keeps => keeps.of_continues
      (continues_run fun event event_mem => undisturbed event event_mem peerId member)
  have later_keep : ∀ peerId ∈ otherId :: otherCall.consensusPeerIds, ∃ claim,
      Keeps later (otherHost.electionKey otherCall) peerId claim := by
    intro peerId member
    rw [repeats.key]
    have member := (repeats.members peerId).mp member
    obtain ⟨claim, keeps⟩ := all_keep peerId member
    exact ⟨claim, still_keeps peerId member claim keeps⟩
  have seed_eq : otherCall.seed = call.seed := congrArg (fun key => key.2.2) repeats.key
  obtain ⟨otherLocal, otherClaims, keeps_otherLocal, keeps_otherClaims, selects⟩ :=
    selectMvpProposer_of_keeps H sha256 openssl asksAgain (seed_eq ▸ length) later_keep
      repeats.answered
  rw [repeats.key] at keeps_otherLocal keeps_otherClaims selects
  have arguments_eq : otherHost.arguments (host.electionKey call) =
      host.arguments (host.electionKey call) := by
    rw [SortitionHost.arguments, repeats.config, SortitionHost.arguments]
  rw [arguments_eq] at selects
  -- Both lists hold the claims that the members keep.
  have same_claims : ∀ claim, claim ∈ localClaim :: claims ↔
      claim ∈ otherLocal :: otherClaims := by
    intro claim
    rw [mem_claims_iff, mem_collected_iff keeps_otherLocal keeps_otherClaims]
    constructor
    · rintro ⟨peerId, member, keeps⟩
      exact ⟨peerId, (repeats.members peerId).mpr member, still_keeps peerId member claim keeps⟩
    · rintro ⟨peerId, member, keeps⟩
      have member := (repeats.members peerId).mp member
      obtain ⟨earlier, keeps_earlier⟩ := all_keep peerId member
      rw [keeps.unique (still_keeps peerId member earlier keeps_earlier)]
      exact ⟨peerId, member, keeps_earlier⟩
  have all_kept : localClaim :: claims ⊆
      next.keptClaims (host.electionKey call) (askerId :: call.consensusPeerIds) := by
    intro claim member
    obtain ⟨peerId, peer_mem, keeps⟩ := (mem_claims_iff claim).mp member
    exact mem_keptClaims peer_mem keeps
  obtain ⟨again, elected_again, again_eq⟩ :=
    selects winner (selects_same selected same_claims all_kept apart)
  exact ⟨again, elected_again, again_eq.trans winner_eq⟩

end SortitionFleet

section Samples

open SortitionFleet SortitionArguments
open CoreSystem (fourSet)

/-- A digest that sums the bytes up. -/
def sumDigest (input : Bytes) : Bytes32 :=
  ⟨List.replicate 32 (input.foldl UInt8.add (UInt8.ofNat 0)), List.length_replicate⟩

/-- The host of a member that has made no claim yet. -/
def memberHost (nodeId : String) : SortitionHost := ⟨nodeId, ⟨1, 0, fourSet⟩, true, 0, 1, ∅⟩

def memberFleet : SortitionFleet :=
  ["a", "b", "c", "d"].foldl (fun fleet nodeId => fleet.set nodeId (memberHost nodeId)) ∅

/-- An election of round 1 at height 1. -/
def memberCall (peerIds : List String) : ElectionCall :=
  ⟨peerIds, List.replicate 32 0, some 1, some 1⟩

/-- The first integer of a member's signature is its id. -/
def signingInput : ElectionInput where
  signatures nodeId := .ok ([0x30, 0x06, 0x02, 0x01] ++ utf8Bytes nodeId ++ [0x02, 0x01, 0x01])
  deliveries _ := .answered

/-- No signature can be drawn any more. -/
def keylessInput : ElectionInput := ⟨fun _ => .error "no key", fun _ => .answered⟩

/-- The second member elects a proposer. -/
def firstElection : Except SortitionError ProposerSelection × SortitionFleet :=
  selectMvpProposer SymbolicDigest sumDigest (fun _ _ _ => true) memberFleet "b"
    (memberCall ["a", "b", "c", "d"]) signingInput

/-- Afterwards the first member takes part in a later round and asks for claims again. -/
def laterFleet : SortitionFleet :=
  [Event.advance "a" 7 3, Event.elect "a" (memberCall ["b", "c"]) signingInput].foldl
    (step SymbolicDigest sumDigest fun _ _ _ => true) firstElection.2

/-- The third member elects the same proposer, although no member can sign any more. -/
def secondElection : Except SortitionError ProposerSelection × SortitionFleet :=
  selectMvpProposer SymbolicDigest sumDigest (fun _ _ _ => true) laterFleet "c"
    (memberCall ["d", "c", "b", "a"]) keylessInput

theorem collisionFree_memberClaims (sortitionMessage : Bytes)
    (built : buildProposerSortitionMessage 1 0 1 1 (List.replicate 32 0)
      (((memberHost "b").arguments (1, 1, List.replicate 32 0)).validatorSetHash SymbolicDigest) =
        .ok sortitionMessage) :
    CollisionFree sumDigest (hashedInputs (firstElection.2.keptClaims (1, 1, List.replicate 32 0)
      ["b", "a", "b", "c", "d"]) sortitionMessage) := by
  have message_eq : sortitionMessage = (buildProposerSortitionMessage 1 0 1 1 (List.replicate 32 0)
      (((memberHost "b").arguments (1, 1, List.replicate 32 0)).validatorSetHash
        SymbolicDigest)).toOption.getD [] := by
    rw [built]
    rfl
  rw [message_eq]
  rw [CollisionFree]
  decide +kernel

theorem mem_memberCalls_iff (peerId : String) :
    peerId ∈ "c" :: (memberCall ["d", "c", "b", "a"]).consensusPeerIds ↔
      peerId ∈ "b" :: (memberCall ["a", "b", "c", "d"]).consensusPeerIds := by
  simp only [memberCall, List.mem_cons, List.not_mem_nil]
  tauto

/-- Four members, two of which elect the proposer of a round. -/
theorem later_election_four : ∃ selection again, firstElection.1 = .ok selection ∧
    secondElection.1 = .ok again ∧ again.selectedProposerId = selection.selectedProposerId := by
  have elects : firstElection.1.toOption.isSome = true := by decide +kernel
  cases elected_eq : firstElection.1 with
  | error error =>
      rw [elected_eq] at elects
      cases elects
  | ok selection =>
      have elected : firstElection = (.ok selection, firstElection.2) := by rw [← elected_eq]
      have undisturbed : ∀ event ∈ [Event.advance "a" 7 3,
          .elect "a" (memberCall ["b", "c"]) signingInput], ∀ peerId,
            event ≠ .restart peerId := by
        simp
      -- The third member goes on through both elections with its settings.
      obtain ⟨otherHost, asksAgain, onwards⟩ : ∃ otherHost, laterFleet.get? "c" = some otherHost ∧
          (memberHost "c").Continues otherHost :=
        ((continues_selectMvpProposer "c").trans
          (continues_run fun event member => undisturbed event member "c")) (memberHost "c") rfl
      have repeats : Repeats "b" "c" (memberHost "b") otherHost (memberCall ["a", "b", "c", "d"])
          (memberCall ["d", "c", "b", "a"]) keylessInput :=
        ⟨onwards.config, rfl, mem_memberCalls_iff, fun _ _ => rfl⟩
      obtain ⟨again, elected_again, again_eq⟩ := later_election_agrees rfl elected
        (fun event member peerId _ => undisturbed event member peerId) asksAgain repeats
        collisionFree_memberClaims
      exact ⟨selection, again, rfl, congrArg Prod.fst elected_again, again_eq⟩

end Samples

end EZChain
