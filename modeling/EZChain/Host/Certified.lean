import EZChain.Chain.PeerBlock
import EZChain.Consensus.Certificates
import EZChain.Host.ConsensusHost

/-!
# Certified blocks of a host

A host extends its chain when it handles an announcement or a finalize message.  Neither handler
compares the block with a commit certificate, so a block of the chain is certified only as far as
the senders of the envelopes see to it.
-/

namespace EZChain

open Checks

variable {H : Type} [Crypto H] [DecidableEq H]

/-! ## What committing a block changes -/

namespace ConsensusNode

/-- The chain is as before, or a block of the next height was appended to it. -/
def ExtendsBy (node next : ConsensusNode H) (block : BlockV2 H) : Prop :=
  next.chain.blocks = node.chain.blocks ∨
    (next.chain.blocks = node.chain.blocks ++ [block] ∧
      block.header.height = node.chain.currentHeight + 1)

theorem chain_applyBlock {node : ConsensusNode H} {block : BlockV2 H}
    (accepted : node.chain.BlockAccepted block) :
    (node.applyBlock block).2.chain = node.chain.nextState block := by
  simp only [applyBlock, ChainStateV2.applyBlock_of_accepted accepted]
  split <;> rfl

theorem applyBlock_of_not_accepted {node : ConsensusNode H} {block : BlockV2 H}
    (rejected : ¬ node.chain.BlockAccepted block) :
    ∃ message, node.applyBlock block = (.error message, node) := by
  obtain ⟨message, raised⟩ := ChainStateV2.applyBlock_of_not_accepted rejected
  exact ⟨message, by simp only [applyBlock, raised]⟩

theorem applyBlock_extendsBy (node : ConsensusNode H) (block : BlockV2 H) :
    node.ExtendsBy (node.applyBlock block).2 block := by
  by_cases accepted : node.chain.BlockAccepted block
  · rw [ExtendsBy, chain_applyBlock accepted]
    exact .inr ⟨rfl, accepted.height⟩
  · obtain ⟨message, raised⟩ := applyBlock_of_not_accepted accepted
    exact .inl (by rw [raised])

theorem validateAndCommit_extendsBy (node : ConsensusNode H) (block : BlockV2 H) :
    node.ExtendsBy (node.validateAndCommit block).2 block := by
  rw [validateAndCommit]
  cases node.validateProposal block with
  | error message => exact .inl rfl
  | ok done =>
      simp only [commitBlock]
      split_ifs
      · exact .inl rfl
      · exact node.applyBlock_extendsBy block

theorem mem_blocks_of_commit {node : ConsensusNode H} {block : BlockV2 H}
    (above : node.chain.currentHeight < block.header.height)
    (committed : (node.validateAndCommit block).1 = .ok ()) :
    block ∈ (node.validateAndCommit block).2.chain.blocks := by
  unfold validateAndCommit at committed ⊢
  cases validated : node.validateProposal block with
  | error message => simp [validated] at committed
  | ok done =>
      simp only [validated, commitBlock, if_neg (not_le.mpr above)] at committed ⊢
      by_cases accepted : node.chain.BlockAccepted block
      · rw [chain_applyBlock accepted]
        exact List.mem_append_right _ (List.mem_singleton.mpr rfl)
      · obtain ⟨message, raised⟩ := applyBlock_of_not_accepted accepted
        simp [raised] at committed

theorem chain_validateAndCommit {node : ConsensusNode H} {block : BlockV2 H}
    (accepted : node.chain.BlockAccepted block) :
    (node.validateAndCommit block).2.chain = node.chain.nextState block := by
  have above : ¬ block.header.height ≤ node.chain.currentHeight :=
    not_le.mpr (accepted.height ▸ Nat.lt_succ_self _)
  have valid : node.validateProposal block = .ok () := require_of accepted.chainId _
  simp only [validateAndCommit, valid, commitBlock, if_neg above, chain_applyBlock accepted]

end ConsensusNode

namespace ConsensusHost

/-! ## Certificates received by a host -/

/-- The certificate that an envelope carries. -/
def Envelope.received : Envelope H → Option (QC H)
  | .consensusFinalize _ commitQc => some commitQc
  | .consensusProposal _ _ _ justifyQc => justifyQc
  | _ => none

/-- The certificates carried by envelopes. -/
def received (envelopes : List (Envelope H)) : List (QC H) :=
  envelopes.filterMap Envelope.received

/-- The certificate is a commit certificate of a quorum for the block. -/
structure Certifies (validatorSet : ValidatorSet) (qc : QC H) (block : BlockV2 H) : Prop where
  commit : qc.phase = .commit
  height : qc.height = block.header.height
  blockHash : qc.blockHash = block.blockHash
  members : ∀ signer ∈ qc.signers.ids, validatorSet.contains signer = true
  quorum : validatorSet.hasQuorum qc.signers.ids.toFinset = true

/-- Some certificate of the list certifies the block. -/
def CertifiedIn (validatorSet : ValidatorSet) (qcs : List (QC H)) (block : BlockV2 H) : Prop :=
  ∃ qc ∈ qcs, Certifies validatorSet qc block

/-- The host after envelopes were handled in order. -/
def run (host : ConsensusHost H) (envelopes : List (Envelope H)) : ConsensusHost H :=
  envelopes.foldl (fun current envelope => (current.handleEnvelope envelope).2) host

/-- Every block that an envelope adds to the chain is certified by a certificate received so far,
and the finalize handler reports success only when the certified block is in the chain. -/
structure OnlyCertified (host : ConsensusHost H) (envelopes : List (Envelope H)) : Prop where
  applied : ∀ before envelope after, envelopes = before ++ envelope :: after →
    ∀ block ∈ (host.run (before ++ [envelope])).consensus.chain.blocks,
      block ∈ (host.run before).consensus.chain.blocks ∨
        CertifiedIn host.core.validatorSet (received (before ++ [envelope])) block
  finalized : ∀ before block commitQc after,
    envelopes = before ++ .consensusFinalize block commitQc :: after →
      ∀ height blockHash snapshot,
        ((host.run before).handleEnvelope (.consensusFinalize block commitQc)).1 =
          .finalized height blockHash snapshot →
        ∃ applied ∈
          (host.run (before ++ [.consensusFinalize block commitQc])).consensus.chain.blocks,
          applied.header.height = commitQc.height ∧ applied.blockHash = commitQc.blockHash

/-- What the sender of an envelope sees to: an announcement above the current height only leads to
blocks that were certified before, and a finalize message brings the certificate of its block,
which is new or is the block of the chain at its height. -/
def SenderCertifies (host : ConsensusHost H) (qcs : List (QC H)) : Envelope H → Prop
  | .blockAnnounce announcedHeight _ announced responses =>
      host.consensus.chain.currentHeight < announcedHeight →
        (∀ block ∈ announced, CertifiedIn host.core.validatorSet qcs block) ∧
          (∀ block ∈ host.fetchedBlocks.values, CertifiedIn host.core.validatorSet qcs block) ∧
          ∀ height, ∀ block ∈ responses height, CertifiedIn host.core.validatorSet qcs block
  | .consensusFinalize block commitQc =>
      commitQc.phase = .commit →
        Certifies host.core.validatorSet commitQc block ∧
          (block.header.height ≤ host.consensus.chain.currentHeight →
            ∃ applied ∈ host.consensus.chain.blocks,
              applied.header.height = block.header.height ∧ applied.blockHash = block.blockHash)
  | _ => True

/-! ## Handlers that leave the chain alone -/

omit [Crypto H] [DecidableEq H] in
theorem CertifiedIn.mono {validatorSet : ValidatorSet} {qcs extended : List (QC H)}
    (subset : qcs ⊆ extended) {block : BlockV2 H} (certified : CertifiedIn validatorSet qcs block) :
    CertifiedIn validatorSet extended block := by
  obtain ⟨qc, mem, certifies⟩ := certified
  exact ⟨qc, subset mem, certifies⟩

omit [Crypto H] [DecidableEq H] in
@[simp]
theorem consensus_rememberAll (host : ConsensusHost H) (blocks : List (BlockV2 H)) :
    (blocks.foldl rememberFetchedBlock host).consensus = host.consensus := by
  induction blocks generalizing host with
  | nil => rfl
  | cons block blocks induction => exact induction _

omit [Crypto H] [DecidableEq H] in
@[simp]
theorem core_rememberAll (host : ConsensusHost H) (blocks : List (BlockV2 H)) :
    (blocks.foldl rememberFetchedBlock host).core = host.core := by
  induction blocks generalizing host with
  | nil => rfl
  | cons block blocks induction => exact induction _

omit [Crypto H] [DecidableEq H] in
theorem mem_fetchedBlocks_rememberAll {host : ConsensusHost H} {blocks : List (BlockV2 H)}
    {block : BlockV2 H}
    (mem : block ∈ (blocks.foldl rememberFetchedBlock host).fetchedBlocks.values) :
    block ∈ host.fetchedBlocks.values ∨ block ∈ blocks := by
  induction blocks generalizing host with
  | nil => exact .inl mem
  | cons first rest induction =>
      rcases induction mem with before | later
      · obtain ⟨key, stored⟩ := (OrderedDict.mem_values_iff _ _).mp before
        simp only [rememberFetchedBlock, OrderedDict.get?_set] at stored
        split at stored
        · exact .inr (List.mem_cons.mpr (.inl (Option.some.inj stored).symm))
        · exact .inl ((OrderedDict.mem_values_iff _ _).mpr ⟨key, stored⟩)
      · exact .inr (List.mem_cons_of_mem _ later)

omit [Crypto H] [DecidableEq H] in
/-- The block used at a height is the announced one or a remembered one. -/
theorem blockAt_spec (host : ConsensusHost H) (announced : Option (BlockV2 H))
    (responses : List (BlockV2 H)) (height : ℕ) :
    (host.blockAt announced responses height).2.consensus = host.consensus ∧
      (host.blockAt announced responses height).2.core = host.core ∧
      (∀ block ∈ (host.blockAt announced responses height).2.fetchedBlocks.values,
        block ∈ host.fetchedBlocks.values ∨ block ∈ responses) ∧
      ∀ block, (host.blockAt announced responses height).1 = .ok block →
        block ∈ announced ∨ block ∈ host.fetchedBlocks.values ∨ block ∈ responses := by
  have fetched : ∀ block, (host.fetchAnnouncedBlock responses height).1 = .ok block →
      block ∈ host.fetchedBlocks.values ∨ block ∈ responses := by
    intro block found
    simp only [fetchAnnouncedBlock, demand_eq_ok] at found
    exact mem_fetchedBlocks_rememberAll ((OrderedDict.mem_values_iff _ _).mpr ⟨height, found⟩)
  have waited : (host.fetchAnnouncedBlock responses height).2 =
      responses.foldl rememberFetchedBlock host := rfl
  unfold blockAt
  cases announced with
  | none =>
      simp only [waited]
      exact ⟨consensus_rememberAll _ _, core_rememberAll _ _,
        fun _ mem => mem_fetchedBlocks_rememberAll mem,
        fun block found => .inr (fetched block found)⟩
  | some given =>
      simp only
      split_ifs
      · refine ⟨rfl, rfl, fun _ mem => .inl mem, fun block found => .inl ?_⟩
        exact congrArg some (Except.ok.inj found)
      · simp only [waited]
        exact ⟨consensus_rememberAll _ _, core_rememberAll _ _,
          fun _ mem => mem_fetchedBlocks_rememberAll mem,
          fun block found => .inr (fetched block found)⟩

/-- A synchronisation only adds announced, remembered or fetched blocks to the chain. -/
theorem mem_blocks_sync {property : BlockV2 H → Prop} {announced : Option (BlockV2 H)}
    {responses : ℕ → List (BlockV2 H)} (given : ∀ block ∈ announced, property block)
    (fetched : ∀ height, ∀ block ∈ responses height, property block) (heights : List ℕ)
    (host : ConsensusHost H) (remembered : ∀ block ∈ host.fetchedBlocks.values, property block) :
    ∀ block ∈ (syncAnnouncedBlocks announced responses heights host).2.consensus.chain.blocks,
      block ∈ host.consensus.chain.blocks ∨ property block := by
  induction heights generalizing host with
  | nil => exact fun block mem => .inl mem
  | cons height heights induction =>
      obtain ⟨same_node, -, remembered', found⟩ :=
        host.blockAt_spec announced (responses height) height
      have remembered_next : ∀ block ∈
          (host.blockAt announced (responses height) height).2.fetchedBlocks.values,
          property block :=
        fun block mem => (remembered' block mem).elim (remembered block) (fetched height block)
      rw [syncAnnouncedBlocks]
      cases step : host.blockAt announced (responses height) height with
      | mk result waited =>
          rw [step] at same_node remembered_next found
          cases result with
          | error message => exact fun block mem => .inl (same_node ▸ mem)
          | ok next =>
              have next_property : property next := by
                rcases found next rfl with announced | before | now
                · exact given next announced
                · exact remembered next before
                · exact fetched height next now
              have extends_by := waited.consensus.validateAndCommit_extendsBy next
              have committed_mem :
                  ∀ block ∈ (waited.consensus.validateAndCommit next).2.chain.blocks,
                    block ∈ host.consensus.chain.blocks ∨ property block := by
                intro block mem
                rw [← same_node]
                rcases extends_by with same | ⟨appended, -⟩
                · exact .inl (same ▸ mem)
                · rw [appended, List.mem_append, List.mem_singleton] at mem
                  rcases mem with before | rfl
                  · exact .inl before
                  · exact .inr next_property
              simp only
              cases committed : waited.consensus.validateAndCommit next with
              | mk outcome node =>
                  rw [committed] at committed_mem
                  cases outcome with
                  | error message => exact committed_mem
                  | ok done =>
                      intro block mem
                      rcases induction { waited with consensus := node } remembered_next block mem
                        with before | now
                      · exact committed_mem block before
                      · exact .inr now

theorem syncAnnouncedBlocks_core (announced : Option (BlockV2 H))
    (responses : ℕ → List (BlockV2 H)) (heights : List ℕ) (host : ConsensusHost H) :
    (syncAnnouncedBlocks announced responses heights host).2.core = host.core := by
  induction heights generalizing host with
  | nil => rfl
  | cons height heights induction =>
      have same := (host.blockAt_spec announced (responses height) height).2.1
      rw [syncAnnouncedBlocks]
      cases step : host.blockAt announced (responses height) height with
      | mk result waited =>
          rw [step] at same
          cases result with
          | error message => exact same
          | ok next =>
              simp only
              cases waited.consensus.validateAndCommit next with
              | mk outcome node =>
                  cases outcome with
                  | error message => exact same
                  | ok done => exact (induction _).trans same

/-! ## Handlers -/

/-- Only an announcement above the current height starts a synchronisation. -/
theorem syncToAnnouncement_snd (host : ConsensusHost H) (announcedHeight : ℕ)
    (announcedHash : Option H) (announced : Option (BlockV2 H)) (responses : ℕ → List (BlockV2 H)) :
    (host.syncToAnnouncement announcedHeight announcedHash announced responses).2 =
      if host.consensus.chain.currentHeight < announcedHeight then
        (syncAnnouncedBlocks announced responses (host.missingHeights announcedHeight) host).2
      else host := by
  rw [syncToAnnouncement]
  split_ifs with conflict above current
  · exact absurd conflict.1 (ne_of_gt above)
  · rfl
  · omega
  · rfl
  · cases syncAnnouncedBlocks announced responses (host.missingHeights announcedHeight) host with
    | mk outcome final =>
        cases outcome with
        | error message => rfl
        | ok done =>
            simp only
            cases final.validateRuntimeState <;> rfl
  · omega

theorem mem_blocks_syncToAnnouncement {property : BlockV2 H → Prop} (host : ConsensusHost H)
    (announcedHeight : ℕ) (announcedHash : Option H) {announced : Option (BlockV2 H)}
    {responses : ℕ → List (BlockV2 H)}
    (certified : host.consensus.chain.currentHeight < announcedHeight →
      (∀ block ∈ announced, property block) ∧
        (∀ block ∈ host.fetchedBlocks.values, property block) ∧
        ∀ height, ∀ block ∈ responses height, property block) :
    ∀ block ∈ (host.syncToAnnouncement announcedHeight announcedHash announced
        responses).2.consensus.chain.blocks,
      block ∈ host.consensus.chain.blocks ∨ property block := by
  rw [syncToAnnouncement_snd]
  split_ifs with above
  · obtain ⟨given, remembered, fetched⟩ := certified above
    exact mem_blocks_sync given fetched (host.missingHeights announcedHeight) host remembered
  · exact fun block mem => .inl mem

theorem syncToAnnouncement_core (host : ConsensusHost H) (announcedHeight : ℕ)
    (announcedHash : Option H) (announced : Option (BlockV2 H)) (responses : ℕ → List (BlockV2 H)) :
    (host.syncToAnnouncement announcedHeight announcedHash announced responses).2.core =
      host.core := by
  rw [syncToAnnouncement_snd]
  split_ifs
  · exact syncAnnouncedBlocks_core _ _ _ _
  · rfl

/-- The effect of a finalize message on the chain and the core. -/
theorem finalizeCommittedBlock_snd (host : ConsensusHost H) (block : BlockV2 H)
    (commitQc : QC H) :
    (host.finalizeCommittedBlock block commitQc).2.consensus =
        (host.consensus.validateAndCommit block).2 ∧
      (host.finalizeCommittedBlock block commitQc).2.core =
        host.core.observeQc (some commitQc) := by
  simp only [finalizeCommittedBlock]
  cases host.consensus.validateAndCommit block with
  | mk outcome node => cases outcome <;> exact ⟨rfl, rfl⟩

theorem onConsensusFinalize_snd {host : ConsensusHost H} {block : BlockV2 H} {commitQc : QC H}
    (commit : commitQc.phase = .commit) :
    (host.onConsensusFinalize block commitQc).2 =
      (host.finalizeCommittedBlock block commitQc).2 := by
  simp only [onConsensusFinalize, commit, ne_eq, not_true_eq_false, if_false]
  cases host.finalizeCommittedBlock block commitQc with
  | mk outcome final => cases outcome <;> rfl

/-- The call of the core that the handler of an envelope makes. -/
def coreCall (host : ConsensusHost H) : Envelope H → Option (ConsensusCore.Call H)
  | .blockAnnounce _ _ _ _ | .blockFetchResponse _ => none
  | .consensusProposal proposal block phase justifyQc =>
      if block.blockHash ≠ proposal.blockHash then
        none
      else
        match host.consensus.validateProposal block with
        | .error _ => none
        | .ok () => some (.makeVote proposal justifyQc phase)
  | .consensusFinalize _ commitQc =>
      if commitQc.phase ≠ .commit then none else some (.observeQc (some commitQc))
  | .consensusTimeoutVote height round => some (.makeTimeoutVote height round)
  | .consensusTimeoutCert tc => some (.observeTc (some tc))

/-- A handler changes the core by at most one call. -/
theorem core_handleEnvelope (host : ConsensusHost H) (envelope : Envelope H) :
    (host.handleEnvelope envelope).2.core =
      (host.coreCall envelope).elim host.core host.core.perform := by
  cases envelope with
  | blockAnnounce announcedHeight announcedHash announced responses =>
      simp only [handleEnvelope, onBlockAnnounce]
      cases announced with
      | none => exact syncToAnnouncement_core _ _ _ _ _
      | some block =>
          simp only
          cases checkAnnouncement announcedHeight announcedHash block with
          | error message => rfl
          | ok done => exact syncToAnnouncement_core _ _ _ _ _
  | blockFetchResponse block => cases block <;> rfl
  | consensusProposal proposal block phase justifyQc =>
      simp only [handleEnvelope, onConsensusProposal, coreCall]
      split_ifs
      · rfl
      · cases host.consensus.validateProposal block with
        | error message => rfl
        | ok done =>
            simp only [Option.elim, ConsensusCore.perform]
            cases host.core.makeVote proposal justifyQc phase with
            | mk result core => cases result <;> rfl
  | consensusFinalize block commitQc =>
      by_cases commit : commitQc.phase = .commit
      · simp only [handleEnvelope, onConsensusFinalize_snd commit, finalizeCommittedBlock_snd,
          coreCall, commit, ne_eq, not_true_eq_false, if_false]
        rfl
      · simp [handleEnvelope, onConsensusFinalize, coreCall, commit]
  | consensusTimeoutVote height round =>
      simp only [handleEnvelope, onConsensusTimeoutVote, coreCall, Option.elim,
        ConsensusCore.perform]
      cases host.core.makeTimeoutVote height round with
      | mk result core => cases result <;> rfl
  | consensusTimeoutCert tc => rfl

theorem validatorSet_handleEnvelope (host : ConsensusHost H) (envelope : Envelope H) :
    (host.handleEnvelope envelope).2.core.validatorSet = host.core.validatorSet := by
  rw [core_handleEnvelope]
  cases host.coreCall envelope with
  | none => rfl
  | some call => exact (host.core.identity_perform call).2.1

/-- Blocks that an envelope adds to the chain are certified when its sender sees to it. -/
theorem mem_blocks_handleEnvelope {host : ConsensusHost H} {qcs : List (QC H)}
    {envelope : Envelope H} (certifies : host.SenderCertifies qcs envelope) :
    ∀ block ∈ (host.handleEnvelope envelope).2.consensus.chain.blocks,
      block ∈ host.consensus.chain.blocks ∨
        CertifiedIn host.core.validatorSet (qcs ++ envelope.received.toList) block := by
  cases envelope with
  | blockAnnounce announcedHeight announcedHash announced responses =>
      simp only [Envelope.received, Option.toList_none, List.append_nil, handleEnvelope,
        onBlockAnnounce]
      cases announced with
      | none => exact host.mem_blocks_syncToAnnouncement announcedHeight announcedHash certifies
      | some given =>
          simp only
          cases checkAnnouncement announcedHeight announcedHash given with
          | error message => exact fun block mem => .inl mem
          | ok done =>
              refine (host.rememberFetchedBlock given).mem_blocks_syncToAnnouncement
                announcedHeight (some given.blockHash) fun above => ?_
              obtain ⟨announced, remembered, fetched⟩ := certifies above
              refine ⟨announced, fun block mem => ?_, fetched⟩
              have split : block ∈ host.fetchedBlocks.values ∨ block ∈ [given] :=
                mem_fetchedBlocks_rememberAll mem
              exact split.elim (remembered block) fun now =>
                announced block (List.mem_singleton.mp now ▸ rfl)
  | blockFetchResponse block => cases block <;> exact fun _ mem => .inl mem
  | consensusProposal proposal block phase justifyQc =>
      simp only [handleEnvelope, onConsensusProposal]
      split_ifs
      · exact fun _ mem => .inl mem
      · cases host.consensus.validateProposal block with
        | error message => exact fun _ mem => .inl mem
        | ok done =>
            simp only
            cases host.core.makeVote proposal justifyQc phase with
            | mk result core => cases result <;> exact fun _ mem => .inl mem
  | consensusFinalize given commitQc =>
      intro block mem
      by_cases commit : commitQc.phase = .commit
      · rw [handleEnvelope, onConsensusFinalize_snd commit,
          (host.finalizeCommittedBlock_snd given commitQc).1] at mem
        rcases host.consensus.validateAndCommit_extendsBy given with same | ⟨appended, -⟩
        · exact .inl (same ▸ mem)
        · rw [appended, List.mem_append, List.mem_singleton] at mem
          rcases mem with before | rfl
          · exact .inl before
          · exact .inr ⟨commitQc, List.mem_append_right _ (List.mem_singleton.mpr rfl),
              (certifies commit).1⟩
      · exact .inl (by simpa [handleEnvelope, onConsensusFinalize, commit] using mem)
  | consensusTimeoutVote height round =>
      simp only [handleEnvelope, onConsensusTimeoutVote]
      cases host.core.makeTimeoutVote height round with
      | mk result core => cases result <;> exact fun _ mem => .inl mem
  | consensusTimeoutCert tc => exact fun _ mem => .inl mem

/-- A finalize message that is answered with success leaves the certified block in the chain. -/
theorem exists_block_of_finalized {host : ConsensusHost H} {qcs : List (QC H)}
    {block : BlockV2 H} {commitQc : QC H}
    (certifies : host.SenderCertifies qcs (.consensusFinalize block commitQc)) {height : ℕ}
    {blockHash : H} {snapshot : ConsensusRuntimeSnapshot H}
    (succeeds : (host.handleEnvelope (.consensusFinalize block commitQc)).1 =
      .finalized height blockHash snapshot) :
    ∃ applied ∈ (host.handleEnvelope (.consensusFinalize block commitQc)).2.consensus.chain.blocks,
      applied.header.height = commitQc.height ∧ applied.blockHash = commitQc.blockHash := by
  have commit : commitQc.phase = .commit := by
    by_contra other
    simp [handleEnvelope, onConsensusFinalize, other] at succeeds
  obtain ⟨matching, known⟩ := certifies commit
  rw [matching.height, matching.blockHash, handleEnvelope, onConsensusFinalize_snd commit,
    (host.finalizeCommittedBlock_snd block commitQc).1]
  have committed : (host.consensus.validateAndCommit block).1 = .ok () := by
    simp only [handleEnvelope, onConsensusFinalize, commit, ne_eq, not_true_eq_false, if_false,
      finalizeCommittedBlock] at succeeds
    cases outcome : host.consensus.validateAndCommit block with
    | mk result node =>
        cases result with
        | error message => simp [outcome] at succeeds
        | ok done => rfl
  by_cases above : host.consensus.chain.currentHeight < block.header.height
  · exact ⟨block, ConsensusNode.mem_blocks_of_commit above committed, rfl, rfl⟩
  · obtain ⟨applied, mem, same⟩ := known (not_lt.mp above)
    refine ⟨applied, ?_, same⟩
    rcases host.consensus.validateAndCommit_extendsBy block with unchanged | ⟨appended, -⟩
    · exact unchanged ▸ mem
    · exact appended ▸ List.mem_append_left _ mem

theorem chain_consensusFinalize {host : ConsensusHost H} {block : BlockV2 H} {commitQc : QC H}
    (accepted : host.consensus.chain.BlockAccepted block) (commit : commitQc.phase = .commit) :
    (host.handleEnvelope (.consensusFinalize block commitQc)).2.consensus.chain =
      host.consensus.chain.nextState block := by
  have finalized := (host.finalizeCommittedBlock_snd block commitQc).1
  rw [handleEnvelope, onConsensusFinalize, if_neg (not_not.mpr commit),
    ← ConsensusNode.chain_validateAndCommit accepted, ← finalized]
  split
  next raised => rw [raised]
  next returned => rw [returned]

/-! ## Runs -/

@[simp]
theorem run_nil (host : ConsensusHost H) : host.run [] = host := rfl

theorem run_concat (host : ConsensusHost H) (envelopes : List (Envelope H))
    (envelope : Envelope H) :
    host.run (envelopes ++ [envelope]) = ((host.run envelopes).handleEnvelope envelope).2 := by
  simp [run]

theorem validatorSet_run (host : ConsensusHost H) (envelopes : List (Envelope H)) :
    (host.run envelopes).core.validatorSet = host.core.validatorSet := by
  induction envelopes using List.reverseRecOn with
  | nil => rfl
  | append_singleton envelopes envelope induction =>
      rw [run_concat, validatorSet_handleEnvelope, induction]

omit [Crypto H] [DecidableEq H] in
theorem received_concat (envelopes : List (Envelope H)) (envelope : Envelope H) :
    received (envelopes ++ [envelope]) = received envelopes ++ envelope.received.toList := by
  simp only [received, List.filterMap_append, List.filterMap_cons, List.filterMap_nil]
  cases envelope.received <;> rfl

/-- When the senders see to the certificates of all envelopes, only certified blocks are applied. -/
theorem onlyCertified_of_senders (host : ConsensusHost H) (envelopes : List (Envelope H))
    (certifies : ∀ before envelope after, envelopes = before ++ envelope :: after →
      (host.run before).SenderCertifies (received before) envelope) :
    host.OnlyCertified envelopes := by
  constructor
  · intro before envelope after split block mem
    rw [run_concat] at mem
    have added := mem_blocks_handleEnvelope (certifies before envelope after split) block mem
    rwa [validatorSet_run, ← received_concat] at added
  · intro before block commitQc after split height blockHash snapshot succeeds
    rw [run_concat]
    exact exists_block_of_finalized (certifies before _ after split) succeeds

section Examples

open SymbolicDigest

/-- A new host of a lone validator. -/
def loneHost : ConsensusHost SymbolicDigest where
  consensus := .new 1 32 (filled 0)
  core := .fresh 1 0 "a" CoreSystem.loneSet CoreSystem.loneSet_contains
  fetchedBlocks := ∅

/-- The block of Alice's first bundle. -/
abbrev firstBlock : BlockV2 SymbolicDigest := genesis.peerBlock 1 firstEntry

theorem firstBlock_accepted : loneHost.consensus.chain.BlockAccepted firstBlock :=
  ChainStateV2.peerBlock_accepted 1 firstEntry_valid

/-- The commit certificate of the first block. -/
def firstCommit : QC SymbolicDigest :=
  CoreSystem.loneQc Nat.one_pos firstBlock.blockHash .commit

/-- A new host of one of four validators. -/
def fourHost : ConsensusHost SymbolicDigest where
  consensus := .new 1 32 (filled 0)
  core := .fresh 1 0 "a" CoreSystem.fourSet CoreSystem.fourSet_contains
  fetchedBlocks := ∅

/-- The block of Bob's bundle on top of the first one. -/
abbrev secondBlock : BlockV2 SymbolicDigest := afterFirst.peerBlock 2 bobEntry

theorem secondBlock_accepted : afterFirst.BlockAccepted secondBlock :=
  ChainStateV2.peerBlock_accepted 2 bobEntry_valid

/-- The commit certificate of three members for an accepted block. -/
def fourCommit {state : ChainStateV2 SymbolicDigest} {block : BlockV2 SymbolicDigest}
    (accepted : state.BlockAccepted block) : QC SymbolicDigest :=
  { CoreSystem.fourQc (Nat.succ_pos state.currentHeight) .commit with
    height := block.header.height
    blockHash := block.blockHash
    height_pos := accepted.height ▸ Nat.succ_pos state.currentHeight }

theorem certifies_fourCommit {state : ChainStateV2 SymbolicDigest}
    {block : BlockV2 SymbolicDigest} (accepted : state.BlockAccepted block) :
    Certifies CoreSystem.fourSet (fourCommit accepted) block where
  commit := rfl
  height := rfl
  blockHash := rfl
  members signer mem := by
    simp only [fourCommit, CoreSystem.fourQc, List.mem_cons, List.not_mem_nil, or_false] at mem
    rcases mem with rfl | rfl | rfl <;> decide
  quorum := CoreSystem.hasQuorum_fourQc

/-- The finalize messages of two blocks. -/
def twoFinalized : List (Envelope SymbolicDigest) :=
  [.consensusFinalize firstBlock (fourCommit firstBlock_accepted),
    .consensusFinalize secondBlock (fourCommit secondBlock_accepted)]

theorem chain_run_first :
    (fourHost.run
      [.consensusFinalize firstBlock (fourCommit firstBlock_accepted)]).consensus.chain =
      afterFirst := by
  have accepted : fourHost.consensus.chain.BlockAccepted firstBlock := firstBlock_accepted
  rw [← List.nil_append [Envelope.consensusFinalize _ _], run_concat, run_nil,
    chain_consensusFinalize accepted rfl]
  rfl

theorem chain_run_twoFinalized :
    (fourHost.run twoFinalized).consensus.chain = afterFirst.nextState secondBlock := by
  have accepted : (fourHost.run [.consensusFinalize firstBlock
      (fourCommit firstBlock_accepted)]).consensus.chain.BlockAccepted secondBlock :=
    chain_run_first ▸ secondBlock_accepted
  rw [twoFinalized, ← List.singleton_append, run_concat, chain_consensusFinalize accepted rfl,
    chain_run_first]

/-- Finalize messages for two blocks and a late copy of the first one only apply certified
blocks. -/
theorem onlyCertified_twoFinalized :
    fourHost.OnlyCertified (twoFinalized ++
      [.consensusFinalize firstBlock (fourCommit firstBlock_accepted)]) := by
  refine onlyCertified_of_senders _ _ fun before envelope after split => ?_
  rcases before with _ | ⟨first, _ | ⟨second, _ | ⟨third, rest⟩⟩⟩
  · obtain ⟨rfl, -⟩ := List.cons.inj split
    refine fun _ => ⟨certifies_fourCommit firstBlock_accepted, fun below => ?_⟩
    exact absurd below (not_le.mpr (firstBlock_accepted.height ▸ Nat.lt_succ_self _))
  · obtain ⟨rfl, later⟩ := List.cons.inj split
    obtain ⟨rfl, -⟩ := List.cons.inj later
    refine fun _ => ⟨?_, fun below => ?_⟩
    · rw [validatorSet_run]
      exact certifies_fourCommit secondBlock_accepted
    · rw [chain_run_first] at below
      exact absurd below (not_le.mpr (secondBlock_accepted.height ▸ Nat.lt_succ_self _))
  · obtain ⟨rfl, later⟩ := List.cons.inj split
    obtain ⟨rfl, last⟩ := List.cons.inj later
    obtain ⟨rfl, -⟩ := List.cons.inj last
    refine fun _ => ⟨?_, fun _ => ⟨firstBlock, ?_, rfl, rfl⟩⟩
    · rw [validatorSet_run]
      exact certifies_fourCommit firstBlock_accepted
    · change firstBlock ∈ (fourHost.run twoFinalized).consensus.chain.blocks
      rw [chain_run_twoFinalized]
      exact List.mem_append_left _ (List.mem_append_right _ (List.mem_singleton.mpr rfl))
  · simp [twoFinalized] at split

end Examples

theorem syncAnnouncedBlocks_single (responses : ℕ → List (BlockV2 H)) (block : BlockV2 H)
    (host : ConsensusHost H) :
    (syncAnnouncedBlocks (some block) responses [block.header.height] host).2.consensus =
      (host.consensus.validateAndCommit block).2 := by
  simp only [syncAnnouncedBlocks, blockAt, if_true]
  cases host.consensus.validateAndCommit block with
  | mk outcome node => cases outcome <;> rfl

/-- An announcement of an acceptable block extends the chain without any certificate. -/
theorem mem_blocks_of_announced {host : ConsensusHost H} {block : BlockV2 H}
    (accepted : host.consensus.chain.BlockAccepted block) (responses : ℕ → List (BlockV2 H)) :
    block ∈ (host.handleEnvelope
      (.blockAnnounce block.header.height none (some block)
        responses)).2.consensus.chain.blocks := by
  have checked : checkAnnouncement block.header.height none block = .ok () := by
    simp [checkAnnouncement, bind_eq_ok]
  have above : host.consensus.chain.currentHeight < block.header.height := by
    have next := accepted.height
    omega
  have heights : (host.rememberFetchedBlock block).missingHeights block.header.height =
      [block.header.height] := by
    have next := accepted.height
    simp [missingHeights, rememberFetchedBlock, next]
  have committed_mem : block ∈ (host.consensus.validateAndCommit block).2.chain.blocks := by
    rw [ConsensusNode.chain_validateAndCommit accepted]
    exact List.mem_append_right _ (List.mem_singleton.mpr rfl)
  have synced : ((host.rememberFetchedBlock block).syncToAnnouncement block.header.height
      (some block.blockHash) (some block) responses).2.consensus =
        (host.consensus.validateAndCommit block).2 := by
    rw [syncToAnnouncement_snd, heights]
    exact (congrArg _ (if_pos above)).trans (syncAnnouncedBlocks_single _ _ _)
  simp only [handleEnvelope, onBlockAnnounce, checked, synced]
  exact committed_mem

/-- The first block is applied on an announcement alone. -/
theorem not_onlyCertified_announced :
    ¬ loneHost.OnlyCertified [.blockAnnounce firstBlock.header.height none (some firstBlock)
      fun _ => []] := by
  intro certified
  have announced : firstBlock ∈ (loneHost.run ([] ++ [.blockAnnounce firstBlock.header.height none
      (some firstBlock) fun _ => []])).consensus.chain.blocks := by
    rw [run_concat, run_nil]
    exact mem_blocks_of_announced firstBlock_accepted fun _ => []
  rcases certified.applied [] _ [] rfl firstBlock announced with before | ⟨qc, mem, -⟩
  · rw [run_nil] at before
    cases before
  · cases mem

end ConsensusHost

end EZChain
