import EZChain.Consensus.Restart
import EZChain.Host.Certified

/-!
# Timeout rounds

A leader asks its peers for timeout votes and counts them together with its own.  It makes and logs
its own vote before a peer has answered, and a validator makes only one timeout vote for a round, so
a round that was left half-way cannot be taken up again.
-/

namespace EZChain

variable {H : Type}

/-- What becomes of a request and of the response to it. -/
inductive MessageDelivery where
  /-- Sending raised. -/
  | raised (message : String)
  /-- The request did not reach the peer. -/
  | lost
  /-- The peer handled the request, but nothing came back. -/
  | unanswered
  | answered

/-- A peer of a timeout round, with what becomes of the two messages to it. -/
structure TimeoutPeer where
  /-- The id of the peer. -/
  peerId : String
  /-- The peer is a consensus peer. -/
  isConsensus : Bool
  /-- What becomes of the request for its vote. -/
  voteDelivery : MessageDelivery
  /-- What becomes of the message with the certificate. -/
  certDelivery : MessageDelivery

/-- The arguments of `run_mvp_timeout_round`, with what becomes of its messages. -/
structure TimeoutRequest where
  /-- The leader, first in the list of peers. -/
  firstId : String
  /-- The other peers. -/
  peers : List TimeoutPeer
  /-- The height, if it is not the next one. -/
  height : Option ℕ
  /-- The round, if it is not the current one. -/
  round : Option ℕ

/-- The result of `run_mvp_timeout_round`. -/
structure TimeoutResult (H : Type) where
  height : ℕ
  round : ℕ
  nextRound : ℕ
  tc : TC H
  runtimeSnapshot : ConsensusRuntimeSnapshot H

variable [DecidableEq H] [Crypto H]

namespace ConsensusCore

/-- Accept timeout votes in order; the last certificate that one of them completes is kept. -/
def acceptTimeoutVotes (core : ConsensusCore H) :
    List (TimeoutVote H) → Option (TC H) → Except String (Option (TC H)) × ConsensusCore H
  | [], tc => (.ok tc, core)
  | vote :: rest, tc =>
      match core.acceptTimeoutVote vote with
      | (.error message, next) => (.error message, next)
      | (.ok maybeTc, next) => next.acceptTimeoutVotes rest (maybeTc.or tc)

end ConsensusCore

/-! ## Messages -/

/-- The hosts of a network in mvp mode, under their node ids. -/
abbrev HostTable (H : Type) := String → ConsensusHost H

namespace HostTable

variable (hosts : HostTable H)

/-- Ask a peer for its timeout vote. -/
def requestTimeoutVote (height round : ℕ) (peer : TimeoutPeer) :
    Except String (TimeoutVote H) × HostTable H :=
  if peer.isConsensus = false then
    (.error ("peer_not_consensus:" ++ peer.peerId), hosts)
  else
    let handled := (hosts peer.peerId).onConsensusTimeoutVote height round
    let reached := Function.update hosts peer.peerId handled.2
    match peer.voteDelivery, handled.1 with
    | .raised message, _ => (.error message, hosts)
    | .lost, _ => (.error ("consensus_timeout_failed:" ++ peer.peerId), hosts)
    | .answered, .timeoutVoted vote => (.ok vote, reached)
    | .answered, .raised message => (.error message, reached)
    | .answered, _ | .unanswered, _ =>
        (.error ("consensus_timeout_failed:" ++ peer.peerId), reached)

/-- Ask the peers in order; the first failure ends the round. -/
def collectTimeoutVotes (hosts : HostTable H) (height round : ℕ) :
    List TimeoutPeer → Except String (List (TimeoutVote H)) × HostTable H
  | [] => (.ok [], hosts)
  | peer :: rest =>
      match hosts.requestTimeoutVote height round peer with
      | (.error message, next) => (.error message, next)
      | (.ok vote, next) =>
          match collectTimeoutVotes next height round rest with
          | (.error message, final) => (.error message, final)
          | (.ok votes, final) => (.ok (vote :: votes), final)

/-- Send a certificate to the peers in order. -/
def announceTimeoutCert (hosts : HostTable H) (tc : TC H) :
    List TimeoutPeer → Except String Unit × HostTable H
  | [] => (.ok (), hosts)
  | peer :: rest =>
      match peer.certDelivery with
      | .raised message => (.error message, hosts)
      | .lost => announceTimeoutCert hosts tc rest
      | .unanswered | .answered =>
          announceTimeoutCert (Function.update hosts peer.peerId
            ((hosts peer.peerId).onConsensusTimeoutCert tc).2) tc rest

/-- Replace the core of a host. -/
def setCore (nodeId : String) (core : ConsensusCore H) : HostTable H :=
  Function.update hosts nodeId { hosts nodeId with core := core }

def targetHeight (nodeId : String) (request : TimeoutRequest) : ℕ :=
  request.height.getD ((hosts nodeId).consensus.chain.currentHeight + 1)

def targetRound (nodeId : String) (request : TimeoutRequest) : ℕ :=
  request.round.getD (max 1 (hosts nodeId).core.pacemaker.currentRound)

/-- The part of `run_mvp_timeout_round` after the local vote was made. -/
def finishTimeoutRound (nodeId : String) (request : TimeoutRequest) (height round : ℕ)
    (localVote : TimeoutVote H) : Except String (TimeoutResult H) × HostTable H :=
  match hosts.collectTimeoutVotes height round request.peers with
  | (.error message, asked) => (.error message, asked)
  | (.ok votes, asked) =>
      match (asked nodeId).core.acceptTimeoutVotes (localVote :: votes) none with
      | (.error message, core) => (.error message, asked.setCore nodeId core)
      | (.ok none, core) => (.error "missing_tc", asked.setCore nodeId core)
      | (.ok (some tc), core) =>
          match (asked.setCore nodeId core).announceTimeoutCert tc request.peers with
          | (.error message, final) => (.error message, final)
          | (.ok (), final) =>
              match (final nodeId).validateRuntimeState with
              | .error message => (.error message, final)
              | .ok snapshot =>
                  (.ok
                    { height := height
                      round := round
                      nextRound := (final nodeId).core.pacemaker.currentRound
                      tc := tc
                      runtimeSnapshot := snapshot },
                    final)

/-- `run_mvp_timeout_round` of a host. -/
def runMvpTimeoutRound (nodeId : String) (request : TimeoutRequest) :
    Except String (TimeoutResult H) × HostTable H :=
  if request.firstId ≠ nodeId then
    (.error "local consensus host must be first proposer", hosts)
  else
    match (hosts nodeId).core.makeTimeoutVote (hosts.targetHeight nodeId request)
        (hosts.targetRound nodeId request) with
    | (.error message, core) => (.error message, hosts.setCore nodeId core)
    | (.ok localVote, core) =>
        (hosts.setCore nodeId core).finishTimeoutRound nodeId request
          (hosts.targetHeight nodeId request) (hosts.targetRound nodeId request) localVote

/-! ## Rounds that were timed out -/

/-- No host forgets a round that it timed out. -/
def KeepsRounds (hosts next : HostTable H) : Prop :=
  ∀ nodeId, (hosts nodeId).core.localTimeoutRounds ⊆ (next nodeId).core.localTimeoutRounds

variable {hosts} {next final : HostTable H} {nodeId : String} {request : TimeoutRequest}

omit [DecidableEq H] [Crypto H] in
theorem KeepsRounds.refl (hosts : HostTable H) : hosts.KeepsRounds hosts :=
  fun _ => Finset.Subset.refl _

omit [DecidableEq H] [Crypto H] in
theorem KeepsRounds.trans (earlier : hosts.KeepsRounds next) (later : next.KeepsRounds final) :
    hosts.KeepsRounds final :=
  fun nodeId => (earlier nodeId).trans (later nodeId)

omit [DecidableEq H] [Crypto H] in
theorem keepsRounds_update {host : ConsensusHost H}
    (kept : (hosts nodeId).core.localTimeoutRounds ⊆ host.core.localTimeoutRounds) :
    hosts.KeepsRounds (Function.update hosts nodeId host) := by
  intro other
  by_cases same : other = nodeId
  · subst same
    rwa [Function.update_self]
  · rw [Function.update_of_ne same]

end HostTable

namespace ConsensusCore

variable {core : ConsensusCore H}

theorem localTimeoutRounds_subset_perform (core : ConsensusCore H) (call : Call H) :
    core.localTimeoutRounds ⊆ (core.perform call).localTimeoutRounds := by
  rw [localTimeoutRounds_perform]
  cases core.emittedTimeout call with
  | none => exact Finset.Subset.refl _
  | some vote => exact Finset.subset_insert _ _

theorem localTimeoutRounds_subset_acceptTimeoutVotes (core : ConsensusCore H)
    (votes : List (TimeoutVote H)) (tc : Option (TC H)) :
    core.localTimeoutRounds ⊆ (core.acceptTimeoutVotes votes tc).2.localTimeoutRounds := by
  induction votes generalizing core tc with
  | nil => exact Finset.Subset.refl _
  | cons vote rest induction =>
      have kept := localTimeoutRounds_subset_perform core (.acceptTimeoutVote vote)
      rw [perform] at kept
      rw [acceptTimeoutVotes]
      cases accepted : core.acceptTimeoutVote vote with
      | mk answer next =>
          rw [accepted] at kept
          cases answer with
          | error message => exact kept
          | ok maybeTc => exact kept.trans (induction next (maybeTc.or tc))

omit [DecidableEq H] in
theorem mem_localTimeoutRounds_of_makeTimeoutVote {height round : ℕ} {vote : TimeoutVote H}
    {next : ConsensusCore H} (made : core.makeTimeoutVote height round = (.ok vote, next)) :
    (0 < height ∧ 0 < round) ∧ (height, round) ∈ next.localTimeoutRounds := by
  rw [makeTimeoutVote] at made
  split_ifs at made with positive voted
  · cases (Prod.mk.inj made).1
  · obtain rfl := (Prod.mk.inj made).2
    exact ⟨positive, Finset.mem_insert_self _ _⟩
  · cases (Prod.mk.inj made).1

end ConsensusCore

namespace HostTable

variable {hosts next : HostTable H} {nodeId : String} {request : TimeoutRequest}

theorem keepsRounds_perform (hosts : HostTable H) (nodeId : String) (call : ConsensusCore.Call H) :
    hosts.KeepsRounds (hosts.setCore nodeId ((hosts nodeId).core.perform call)) :=
  keepsRounds_update (ConsensusCore.localTimeoutRounds_subset_perform _ call)

theorem onConsensusTimeoutVote_snd (host : ConsensusHost H) (height round : ℕ) :
    (host.onConsensusTimeoutVote height round).2 =
      { host with core := host.core.perform (.makeTimeoutVote height round) } := by
  rw [ConsensusHost.onConsensusTimeoutVote, ConsensusCore.perform]
  split <;> simp_all

theorem keepsRounds_requestTimeoutVote (hosts : HostTable H) (height round : ℕ)
    (peer : TimeoutPeer) :
    hosts.KeepsRounds (hosts.requestTimeoutVote height round peer).2 := by
  have handled : hosts.KeepsRounds (Function.update hosts peer.peerId
      ((hosts peer.peerId).onConsensusTimeoutVote height round).2) := by
    rw [onConsensusTimeoutVote_snd]
    exact keepsRounds_perform hosts peer.peerId (.makeTimeoutVote height round)
  rw [requestTimeoutVote]
  split_ifs
  · exact .refl hosts
  · dsimp only
    split
    · exact .refl hosts
    · exact .refl hosts
    all_goals exact handled

theorem keepsRounds_collectTimeoutVotes (hosts : HostTable H) (height round : ℕ)
    (peers : List TimeoutPeer) :
    hosts.KeepsRounds (hosts.collectTimeoutVotes height round peers).2 := by
  induction peers generalizing hosts with
  | nil => exact .refl hosts
  | cons peer rest induction =>
      have asked := keepsRounds_requestTimeoutVote hosts height round peer
      rw [collectTimeoutVotes]
      cases request_eq : hosts.requestTimeoutVote height round peer with
      | mk answer next =>
          rw [request_eq] at asked
          cases answer with
          | error message => exact asked
          | ok vote =>
              have kept := asked.trans (induction next)
              dsimp only
              cases collected : collectTimeoutVotes next height round rest with
              | mk votes final =>
                  rw [collected] at kept
                  cases votes with
                  | error message => exact kept
                  | ok votes => exact kept

theorem keepsRounds_announceTimeoutCert (hosts : HostTable H) (tc : TC H)
    (peers : List TimeoutPeer) : hosts.KeepsRounds (hosts.announceTimeoutCert tc peers).2 := by
  induction peers generalizing hosts with
  | nil => exact .refl hosts
  | cons peer rest induction =>
      have handled := keepsRounds_perform hosts peer.peerId (.observeTc (some tc))
      rw [announceTimeoutCert]
      cases peer.certDelivery with
      | raised message => exact .refl hosts
      | lost => exact induction hosts
      | unanswered => exact handled.trans (induction _)
      | answered => exact handled.trans (induction _)

theorem keepsRounds_finishTimeoutRound (hosts : HostTable H) (nodeId : String)
    (request : TimeoutRequest) (height round : ℕ) (localVote : TimeoutVote H) :
    hosts.KeepsRounds (hosts.finishTimeoutRound nodeId request height round localVote).2 := by
  have collects := keepsRounds_collectTimeoutVotes hosts height round request.peers
  rw [finishTimeoutRound]
  cases collected : hosts.collectTimeoutVotes height round request.peers with
  | mk answer asked =>
      rw [collected] at collects
      cases answer with
      | error message => exact collects
      | ok votes =>
          have accepts := (asked nodeId).core.localTimeoutRounds_subset_acceptTimeoutVotes
            (localVote :: votes) none
          dsimp only
          cases accepted : (asked nodeId).core.acceptTimeoutVotes (localVote :: votes) none with
          | mk outcome core =>
              rw [accepted] at accepts
              have counted : hosts.KeepsRounds (asked.setCore nodeId core) :=
                collects.trans (keepsRounds_update accepts)
              cases outcome with
              | error message => exact counted
              | ok found =>
                  cases found with
                  | none => exact counted
                  | some tc =>
                      have announces := keepsRounds_announceTimeoutCert
                        (asked.setCore nodeId core) tc request.peers
                      dsimp only
                      cases announced : (asked.setCore nodeId core).announceTimeoutCert tc
                          request.peers with
                      | mk done final =>
                          rw [announced] at announces
                          have kept := counted.trans announces
                          cases done with
                          | error message => exact kept
                          | ok _ =>
                              dsimp only
                              split <;> exact kept

theorem keepsRounds_runMvpTimeoutRound (hosts : HostTable H) (nodeId : String)
    (request : TimeoutRequest) :
    hosts.KeepsRounds (hosts.runMvpTimeoutRound nodeId request).2 := by
  have votes := keepsRounds_perform hosts nodeId (.makeTimeoutVote
    (hosts.targetHeight nodeId request) (hosts.targetRound nodeId request))
  rw [ConsensusCore.perform] at votes
  rw [runMvpTimeoutRound]
  split_ifs
  · exact .refl hosts
  · cases made : (hosts nodeId).core.makeTimeoutVote (hosts.targetHeight nodeId request)
        (hosts.targetRound nodeId request) with
    | mk answer core =>
        rw [made] at votes
        cases answer with
        | error message => exact votes
        | ok localVote => exact votes.trans (keepsRounds_finishTimeoutRound _ nodeId request _ _ _)

/-! ## Retries -/

/-- The hosts after attempts, one after another, each with the id of its leader. -/
def attempts (hosts : HostTable H) (requests : List (String × TimeoutRequest)) : HostTable H :=
  requests.foldl (fun hosts attempt => (hosts.runMvpTimeoutRound attempt.1 attempt.2).2) hosts

theorem keepsRounds_attempts (hosts : HostTable H) (requests : List (String × TimeoutRequest)) :
    hosts.KeepsRounds (hosts.attempts requests) := by
  induction requests generalizing hosts with
  | nil => exact .refl hosts
  | cons attempt rest induction =>
      have first := keepsRounds_runMvpTimeoutRound hosts attempt.1 attempt.2
      exact first.trans (induction _)

/-- The request is for the round. -/
structure Targets (hosts : HostTable H) (nodeId : String) (height round : ℕ)
    (request : TimeoutRequest) : Prop where
  first : request.firstId = nodeId
  height_eq : hosts.targetHeight nodeId request = height
  round_eq : hosts.targetRound nodeId request = round

/-- All peers of the request answer, and they are a quorum together with the leader. -/
structure QuorumAnswers (hosts : HostTable H) (nodeId : String) (request : TimeoutRequest) :
    Prop where
  answered : ∀ peer ∈ request.peers, peer.isConsensus = true ∧ peer.voteDelivery = .answered ∧
    peer.certDelivery = .answered
  quorum : (hosts nodeId).core.validatorSet.hasQuorum
    (nodeId :: request.peers.map TimeoutPeer.peerId).toFinset = true

/-- The attempt fails after the leader has made its own vote. -/
structure FailsHalfway (hosts : HostTable H) (nodeId : String) (request : TimeoutRequest) :
    Prop where
  first : request.firstId = nodeId
  voted : ∃ vote next, (hosts nodeId).core.makeTimeoutVote (hosts.targetHeight nodeId request)
    (hosts.targetRound nodeId request) = (.ok vote, next)
  failed : ∃ message, (hosts.runMvpTimeoutRound nodeId request).1 = .error message

/-- After any further attempts, a retry that a quorum answers returns a certificate. -/
def RetrySucceeds (hosts : HostTable H) (nodeId : String) (request : TimeoutRequest) : Prop :=
  ∀ later retry,
    let after := (hosts.runMvpTimeoutRound nodeId request).2.attempts later
    after.Targets nodeId (hosts.targetHeight nodeId request) (hosts.targetRound nodeId request)
        retry →
      after.QuorumAnswers nodeId retry →
        ∃ result, (after.runMvpTimeoutRound nodeId retry).1 = .ok result

theorem runMvpTimeoutRound_of_mem {height round : ℕ}
    (targets : hosts.Targets nodeId height round request) (positive : 0 < height ∧ 0 < round)
    (timed_out : (height, round) ∈ (hosts nodeId).core.localTimeoutRounds) :
    hosts.runMvpTimeoutRound nodeId request =
      (.error "local validator already timed out this round", hosts) := by
  have made : (hosts nodeId).core.makeTimeoutVote height round =
      (.error "local validator already timed out this round", (hosts nodeId).core) := by
    rw [ConsensusCore.makeTimeoutVote, dif_pos positive, if_pos timed_out]
  rw [runMvpTimeoutRound, if_neg (not_not.mpr targets.first), targets.height_eq, targets.round_eq,
    made]
  exact congrArg (Prod.mk _) (Function.update_eq_self nodeId hosts)

omit [DecidableEq H] [Crypto H] in
theorem exists_quorumAnswers (hosts : HostTable H) (nodeId : String) (height round : ℕ) :
    ∃ request, hosts.Targets nodeId height round request ∧ hosts.QuorumAnswers nodeId request := by
  let members := (hosts nodeId).core.validatorSet.validators.map ConsensusValidator.validatorId
  refine ⟨⟨nodeId, (members.filter (· ≠ nodeId)).map fun member =>
    ⟨member, true, .answered, .answered⟩, some height, some round⟩, ⟨rfl, rfl, rfl⟩, ?_, ?_⟩
  · intro peer member
    obtain ⟨_, _, rfl⟩ := List.mem_map.mp member
    exact ⟨rfl, rfl, rfl⟩
  · refine ValidatorSet.hasQuorum_mono ?_ ValidatorSet.hasQuorum_memberIds
    intro member is_member
    rw [ValidatorSet.memberIds, List.mem_toFinset] at is_member
    rw [List.mem_toFinset, List.map_map, List.mem_cons]
    by_cases same : member = nodeId
    · exact .inl same
    · refine .inr (List.mem_map.mpr ⟨member, ?_, rfl⟩)
      exact List.mem_filter.mpr ⟨is_member, decide_eq_true same⟩

/-- After an attempt that failed half-way every retry of its round is refused, whoever answers. -/
theorem not_retrySucceeds (fails : hosts.FailsHalfway nodeId request) :
    (∀ later retry,
      let after := (hosts.runMvpTimeoutRound nodeId request).2.attempts later
      after.Targets nodeId (hosts.targetHeight nodeId request) (hosts.targetRound nodeId request)
          retry →
        after.runMvpTimeoutRound nodeId retry =
          (.error "local validator already timed out this round", after)) ∧
      ¬ hosts.RetrySucceeds nodeId request := by
  obtain ⟨vote, next, made⟩ := fails.voted
  obtain ⟨positive, marked⟩ := ConsensusCore.mem_localTimeoutRounds_of_makeTimeoutVote made
  have left : (hosts.targetHeight nodeId request, hosts.targetRound nodeId request) ∈
      ((hosts.runMvpTimeoutRound nodeId request).2 nodeId).core.localTimeoutRounds := by
    rw [runMvpTimeoutRound, if_neg (not_not.mpr fails.first), made]
    apply keepsRounds_finishTimeoutRound _ nodeId request _ _ vote nodeId
    rw [setCore, Function.update_self]
    exact marked
  have refused : ∀ later retry,
      let after := (hosts.runMvpTimeoutRound nodeId request).2.attempts later
      after.Targets nodeId (hosts.targetHeight nodeId request) (hosts.targetRound nodeId request)
          retry →
        after.runMvpTimeoutRound nodeId retry =
          (.error "local validator already timed out this round", after) :=
    fun later retry targets =>
      runMvpTimeoutRound_of_mem targets positive (keepsRounds_attempts _ later nodeId left)
  refine ⟨refused, fun succeeds => ?_⟩
  obtain ⟨retry, targets, answers⟩ := exists_quorumAnswers
    ((hosts.runMvpTimeoutRound nodeId request).2.attempts []) nodeId
    (hosts.targetHeight nodeId request) (hosts.targetRound nodeId request)
  obtain ⟨result, returned⟩ := succeeds [] retry targets answers
  rw [refused [] retry targets] at returned
  cases returned

section Lone

open ConsensusHost

/-- A network of hosts that have not seen anything. -/
def loneHosts : HostTable SymbolicDigest := fun _ => loneHost

/-- A validator on its own that asks another node as well, which it does not reach. -/
def loneRequest : TimeoutRequest := ⟨"a", [⟨"b", true, .lost, .lost⟩], none, none⟩

/-- The only validator answers itself. -/
def loneRetry : TimeoutRequest := ⟨"a", [], some 1, some 1⟩

/-- An unreachable peer ends the attempts for a round. -/
theorem not_retrySucceeds_unreached :
    ¬ loneHosts.RetrySucceeds "a" loneRequest := by
  intro succeeds
  obtain ⟨result, returned⟩ := succeeds [] loneRetry ⟨rfl, rfl, rfl⟩ ⟨List.forall_mem_nil _, rfl⟩
  cases returned

end Lone

section Four

open ConsensusHost

/-- The hosts of four members. -/
def fourHosts : HostTable SymbolicDigest := fun nodeId =>
  if member : CoreSystem.fourSet.contains nodeId = true then
    { loneHost with core := .fresh 1 0 nodeId CoreSystem.fourSet member }
  else loneHost

/-- The last member is not reached after the others have answered. -/
def fourRequest : TimeoutRequest where
  firstId := "a"
  peers := [⟨"b", true, .answered, .answered⟩, ⟨"c", true, .answered, .answered⟩,
    ⟨"d", true, .lost, .lost⟩]
  height := none
  round := none

/-- The retry leaves the last member out and answers come from the other ones. -/
def fourRetry : TimeoutRequest where
  firstId := "a"
  peers := [⟨"b", true, .answered, .answered⟩, ⟨"c", true, .answered, .answered⟩]
  height := some 1
  round := some 1

/-- The retry is refused although it asks for a quorum only, also after another attempt. -/
theorem refused_fourRetry :
    let after := (fourHosts.runMvpTimeoutRound "a" fourRequest).2.attempts [("b", fourRetry)]
    after.runMvpTimeoutRound "a" fourRetry =
      (.error "local validator already timed out this round", after) := by
  have fails : fourHosts.FailsHalfway "a" fourRequest := ⟨rfl, ⟨_, _, rfl⟩, ⟨_, rfl⟩⟩
  exact (not_retrySucceeds fails).1 [("b", fourRetry)] fourRetry ⟨rfl, rfl, rfl⟩

end Four

end HostTable

end EZChain
