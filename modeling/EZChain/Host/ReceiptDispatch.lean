import EZChain.Chain.Admission
import EZChain.Host.LoneRounds
import EZChain.Host.StoredReceipts
import EZChain.Library.Runs

/-!
# Dispatching receipts

A host remembers which peer submitted the bundle of a sender in a table that hangs on the block it
previews at the submission, under the hash of that block.  A round previews its block again, at its
own timestamp and with its own limit, and dispatches the receipts of the block to the peers in the
table that it finds under the new hash.
-/

namespace EZChain

open Checks

variable {H : Type}

/-! ## Previews -/

/-- `PendingConsensusPreview`. -/
structure PendingConsensusPreview (H : Type) where
  /-- The block that was built for the round. -/
  block : BlockV2 H
  /-- The peers to send its receipts to, by sender. -/
  senderPeerIds : OrderedDict Address String

/-- A consensus host in mvp mode with its pending previews. -/
structure PreviewingHost (H : Type) extends ConsensusHost H where
  /-- Receipts are sent when a round is decided. -/
  autoDispatchReceipts : Bool
  /-- The blocks of undecided rounds, by hash. -/
  pendingPreviews : OrderedDict H (PendingConsensusPreview H)

/-- The arguments of `run_mvp_consensus_round` with what the participants send back, what the
network says of the peers, and the receipt tables of the store as earlier blocks have left them. -/
structure DispatchRequest (H : Type) [DecidableEq H] extends RoundRequest H where
  /-- The receipt tables after the block. -/
  tables : ReceiptTables H
  /-- The peers that pull their receipts. -/
  supportsPull : String → Bool

/-- A receipt that is handed to the network.  The message does not name the sender. -/
structure DispatchedReceipt (H : Type) where
  /-- The account that the receipt is about. -/
  senderAddr : Address
  /-- The peer that it is sent to. -/
  recipientId : String
  /-- The receipt. -/
  receipt : Receipt H

/-- The tables of all previews, later ones over earlier ones. -/
def carriedSenderPeerIds (previews : OrderedDict H (PendingConsensusPreview H)) :
    OrderedDict Address String :=
  (previews.values.map PendingConsensusPreview.senderPeerIds).foldl OrderedDict.update ∅

/-- A peer id is only stored when it is not empty. -/
def storedPeerId (senderPeerId : Option String) : Option String :=
  senderPeerId.filter fun peerId => peerId ≠ ""

/-- A table with the peer of a sender. -/
def withSenderPeer (senderPeerIds : OrderedDict Address String) (sender : Address)
    (senderPeerId : Option String) : OrderedDict Address String :=
  match storedPeerId senderPeerId with
  | none => senderPeerIds
  | some peerId => senderPeerIds.set sender peerId

namespace PreviewingHost

variable [DecidableEq H]

/-- The previews after a submission was previewed.  The first preview of a block takes the place of
all others. -/
def previewsWith (host : PreviewingHost H) (block : BlockV2 H) (sender : Address)
    (senderPeerId : Option String) : OrderedDict H (PendingConsensusPreview H) :=
  let carried := carriedSenderPeerIds host.pendingPreviews
  match host.pendingPreviews.get? block.blockHash with
  | none =>
      (∅ : OrderedDict H (PendingConsensusPreview H)).set block.blockHash
        ⟨block, withSenderPeer carried sender senderPeerId⟩
  | some preview =>
      host.pendingPreviews.set block.blockHash
        { preview with
          senderPeerIds :=
            withSenderPeer (preview.senderPeerIds.update carried) sender senderPeerId }

variable [Crypto H]

/-- `_track_pending_mvp_bundle` at a time.  The schedule of automatic rounds is left out. -/
def trackPendingMvpBundle (host : PreviewingHost H) (submission : BundleSubmission H)
    (senderPeerId : Option String) (now : ℕ) : Except String (BlockV2 H) × PreviewingHost H :=
  match host.consensus.chain.submitBundle submission with
  | .error message => (.error message, host)
  | .ok chain =>
      let submitted := { host with consensus := { host.consensus with chain := chain } }
      if chain.bundlePool.snapshot none = [] then
        (.error "no pending bundles to package", submitted)
      else
        let block := (chain.previewBlock now [] [] none).1
        (.ok block,
          { submitted with
            pendingPreviews :=
              host.previewsWith block submission.sidecar.senderAddr senderPeerId })

/-! ## Rounds -/

/-- The previews once a round has looked for the preview of its block. -/
def previewsInRound (host : PreviewingHost H) (request : DispatchRequest H) :
    OrderedDict H (PendingConsensusPreview H) :=
  let block := host.roundBlock request.toRoundRequest
  if request.firstId ≠ host.core.localValidatorId ∨
      host.consensus.chain.bundlePool.snapshot request.limit = [] then
    host.pendingPreviews
  else
    match host.pendingPreviews.get? block.blockHash with
    | some _ => host.pendingPreviews
    | none => host.pendingPreviews.set block.blockHash ⟨block, ∅⟩

/-- The peers in the preview of a round's block. -/
def roundSenderPeerIds (host : PreviewingHost H) (request : DispatchRequest H) :
    OrderedDict Address String :=
  ((host.previewsInRound request).get? (host.roundBlock request.toRoundRequest).blockHash).elim ∅
    PendingConsensusPreview.senderPeerIds

/-- The receipt tables with the receipts of the block that a round has committed. -/
def committedTables (host : PreviewingHost H) (request : DispatchRequest H)
    (committed : ConsensusHost H) : Except String (ReceiptTables H) := do
  let block := host.roundBlock request.toRoundRequest
  let receipts ← (host.consensus.chain.applyBlock block).1
  request.tables.saveAppliedBlock block receipts committed.consensus.chain.receiptCache.maxBlocks
    (committed.consensus.chain.receiptCache.getProofBatch ⟨block.header.height, block.blockHash⟩)

/-- `_dispatch_finalized_receipts`: a failed delivery is passed over. -/
def dispatchFinalizedReceipts (host : PreviewingHost H) (request : DispatchRequest H)
    (node : ConsensusNode H) (tables : ReceiptTables H)
    (senderPeerIds : OrderedDict Address String) :
    List (DiffEntry H) → Except String Unit × List (DispatchedReceipt H)
  | [] => (.ok (), [])
  | entry :: rest =>
      let later := host.dispatchFinalizedReceipts request node tables senderPeerIds rest
      match senderPeerIds.get? entry.newLeaf.addr with
      | none => later
      | some senderPeerId =>
          if ¬ host.autoDispatchReceipts ∧ request.supportsPull senderPeerId then later
          else
            match node.getReceipt tables entry.newLeaf.addr entry.bundleEnvelope.seq with
            | .error message => (.error message, [])
            | .ok none => later
            | .ok (some receipt) =>
                (later.1, ⟨entry.newLeaf.addr, senderPeerId, receipt⟩ :: later.2)

/-- `run_mvp_consensus_round` with the previews: its outcome, the receipts that are handed to the
network, and the host afterwards.  When the receipts are not saved, the block is not saved either.
The second check of the runtime state sees what the first one has seen. -/
def runMvpConsensusRound (host : PreviewingHost H) (request : DispatchRequest H) :
    (Except String (RoundResult H) × List (DispatchedReceipt H)) × PreviewingHost H :=
  let previewed := { host with pendingPreviews := host.previewsInRound request }
  match host.toConsensusHost.runMvpConsensusRound request.toRoundRequest with
  | (.error message, final) => ((.error message, []), { previewed with toConsensusHost := final })
  | (.ok result, final) =>
      match host.committedTables request final with
      | .error message =>
          let unsaved := { final.consensus with store := host.consensus.store }
          ((.error message, []),
            { previewed with toConsensusHost := { final with consensus := unsaved } })
      | .ok tables =>
          let block := host.roundBlock request.toRoundRequest
          let committed := { previewed with toConsensusHost := final }
          match host.dispatchFinalizedReceipts request final.consensus tables
              (host.roundSenderPeerIds request) block.diffPackage.diffEntries with
          | (.error message, deliveries) => ((.error message, deliveries), committed)
          | (.ok (), deliveries) =>
              ((.ok result, deliveries),
                { committed with
                  pendingPreviews := committed.pendingPreviews.erase block.blockHash })

end PreviewingHost

/-! ## What a committed round has done -/

section Committed

variable [DecidableEq H] [Crypto H]

theorem ConsensusNode.accepted_of_commit {node next : ConsensusNode H} {block : BlockV2 H}
    (above : node.chain.currentHeight < block.header.height)
    (commits : node.validateAndCommit block = (.ok (), next)) :
    node.chain.BlockAccepted block ∧ next.chain = node.chain.nextState block := by
  rw [validateAndCommit] at commits
  cases validated : node.validateProposal block with
  | error message => simp [validated] at commits
  | ok done =>
      simp only [validated, commitBlock, if_neg (not_le.mpr above)] at commits
      by_cases accepted : node.chain.BlockAccepted block
      · exact ⟨accepted, by rw [← chain_applyBlock accepted, commits]⟩
      · obtain ⟨message, raised⟩ := applyBlock_of_not_accepted accepted
        simp [raised] at commits

namespace ConsensusHost

variable {host final : ConsensusHost H} {request : RoundRequest H} {result : RoundResult H}

theorem exists_finishRound (returns : host.runMvpConsensusRound request = (.ok result, final)) :
    ∃ committed prepareQc precommitQc commitQc,
      host.finishRound request committed prepareQc precommitQc commitQc = (.ok result, final) := by
  simp only [runMvpConsensusRound] at returns
  split_ifs at returns
  · cases returns
  · cases returns
  split at returns
  · cases returns
  split at returns
  · cases returns
  split at returns
  · cases returns
  split at returns
  · cases returns
  · exact ⟨_, _, _, _, returns⟩

/-- A round that returns has applied its block. -/
theorem accepted_of_round (returns : host.runMvpConsensusRound request = (.ok result, final)) :
    host.consensus.chain.BlockAccepted (host.roundBlock request) ∧
      final.consensus.chain = host.consensus.chain.nextState (host.roundBlock request) := by
  obtain ⟨committed, prepareQc, precommitQc, commitQc, finishes⟩ := exists_finishRound returns
  have above : host.consensus.chain.currentHeight < (host.roundBlock request).header.height :=
    Nat.lt_succ_self _
  simp only [finishRound, finalizeCommittedBlock] at finishes
  rcases commits : host.consensus.validateAndCommit (host.roundBlock request) with
    ⟨_ | ⟨⟩, node⟩
  · simp only [commits] at finishes
    cases finishes
  · simp only [commits] at finishes
    have applied := ConsensusNode.accepted_of_commit above commits
    split at finishes
    · cases finishes
    next snapshot after checked =>
      obtain ⟨-, rfl⟩ := Prod.mk.inj checked
      split at finishes
      · cases finishes
      · obtain ⟨-, rfl⟩ := Prod.mk.inj finishes
        exact applied

end ConsensusHost

namespace PreviewingHost

variable {host : PreviewingHost H} {request : DispatchRequest H}

/-- The deliveries of receipts to the senders in a table. -/
def deliveriesOf (receipts : OrderedDict Address (Receipt H))
    (senderPeerIds : OrderedDict Address String) (entries : List (DiffEntry H)) :
    List (DispatchedReceipt H) :=
  entries.filterMap fun entry =>
    (senderPeerIds.get? entry.newLeaf.addr).bind fun senderPeerId =>
      (receipts.get? entry.newLeaf.addr).map (⟨entry.newLeaf.addr, senderPeerId, ·⟩)

theorem dispatch_of_found (dispatches : host.autoDispatchReceipts = true) {node : ConsensusNode H}
    {tables : ReceiptTables H} {receipts : OrderedDict Address (Receipt H)}
    {entries : List (DiffEntry H)}
    (found : ∀ entry ∈ entries, ∃ receipt, receipts.get? entry.newLeaf.addr = some receipt ∧
      node.getReceipt tables entry.newLeaf.addr entry.bundleEnvelope.seq = .ok (some receipt))
    (senderPeerIds : OrderedDict Address String) :
    host.dispatchFinalizedReceipts request node tables senderPeerIds entries =
      (.ok (), deliveriesOf receipts senderPeerIds entries) := by
  induction entries with
  | nil => rfl
  | cons entry rest induction =>
      obtain ⟨⟨receipt, receipt_eq, returned⟩, rest_found⟩ := List.forall_mem_cons.mp found
      have later := induction rest_found
      rw [deliveriesOf] at later ⊢
      cases known : senderPeerIds.get? entry.newLeaf.addr with
      | none => simp [dispatchFinalizedReceipts, known, later]
      | some senderPeerId =>
          simp [dispatchFinalizedReceipts, known, dispatches, returned, receipt_eq, later]

omit [DecidableEq H] [Crypto H] in
theorem mem_deliveriesOf {receipts : OrderedDict Address (Receipt H)}
    {senderPeerIds : OrderedDict Address String} {entries : List (DiffEntry H)}
    {delivery : DispatchedReceipt H} :
    delivery ∈ deliveriesOf receipts senderPeerIds entries ↔
      (∃ entry ∈ entries, entry.newLeaf.addr = delivery.senderAddr) ∧
        senderPeerIds.get? delivery.senderAddr = some delivery.recipientId ∧
          receipts.get? delivery.senderAddr = some delivery.receipt := by
  obtain ⟨sender, recipientId, receipt⟩ := delivery
  simp only [deliveriesOf, List.mem_filterMap, Option.bind_eq_some_iff, Option.map_eq_some_iff,
    DispatchedReceipt.mk.injEq]
  constructor
  · rintro ⟨entry, member, peerId, known, found, stored, rfl, rfl, rfl⟩
    exact ⟨⟨entry, member, rfl⟩, known, stored⟩
  · rintro ⟨⟨entry, member, rfl⟩, known, stored⟩
    exact ⟨entry, member, recipientId, known, receipt, stored, rfl, rfl, rfl⟩

theorem dispatch_of_saved (dispatches : host.autoDispatchReceipts = true)
    (positive : 0 < host.consensus.chain.receiptCache.maxBlocks) {result : RoundResult H}
    {final : ConsensusHost H} {tables : ReceiptTables H}
    (runs : host.toConsensusHost.runMvpConsensusRound request.toRoundRequest = (.ok result, final))
    (saves : host.committedTables request final = .ok tables) :
    let block := host.roundBlock request.toRoundRequest
    host.dispatchFinalizedReceipts request final.consensus tables
        (host.roundSenderPeerIds request) block.diffPackage.diffEntries =
      (.ok (), deliveriesOf (host.consensus.chain.blockReceipts block)
        (host.roundSenderPeerIds request) block.diffPackage.diffEntries) := by
  obtain ⟨accepted, applied⟩ := ConsensusHost.accepted_of_round runs
  simp only [committedTables, ChainStateV2.applyBlock_of_accepted accepted, bind_eq_ok,
    Except.ok.injEq, exists_eq_left'] at saves
  have still_positive : 0 < final.consensus.chain.receiptCache.maxBlocks := by
    rw [applied, ChainStateV2.maxBlocks_nextState]
    exact positive
  exact dispatch_of_found dispatches (fun entry member =>
    ConsensusNode.getReceipt_of_saved accepted applied still_positive saves member) _

/-- A round that returns has applied its block, has dispatched the receipts of all senders in the
preview of its block, and has dropped this preview. -/
theorem round_of_returns (dispatches : host.autoDispatchReceipts = true)
    (positive : 0 < host.consensus.chain.receiptCache.maxBlocks) {result : RoundResult H}
    (returns : (host.runMvpConsensusRound request).1.1 = .ok result) :
    let block := host.roundBlock request.toRoundRequest
    host.consensus.chain.BlockAccepted block ∧
      (host.runMvpConsensusRound request).2.consensus.chain =
        host.consensus.chain.nextState block ∧
      (host.runMvpConsensusRound request).1.2 =
        deliveriesOf (host.consensus.chain.blockReceipts block) (host.roundSenderPeerIds request)
          block.diffPackage.diffEntries ∧
      (host.runMvpConsensusRound request).2.pendingPreviews =
        (host.previewsInRound request).erase block.blockHash ∧
      (host.runMvpConsensusRound request).2.autoDispatchReceipts = true := by
  intro block
  simp only [runMvpConsensusRound] at returns ⊢
  rcases runs : host.toConsensusHost.runMvpConsensusRound request.toRoundRequest with
    ⟨_ | roundResult, final⟩
  · simp only [runs] at returns
    cases returns
  obtain ⟨accepted, applied⟩ := ConsensusHost.accepted_of_round runs
  cases saves : host.committedTables request final with
  | error message =>
      simp only [runs, saves] at returns
      cases returns
  | ok tables =>
      simp only [saves, dispatch_of_saved dispatches positive runs saves]
      exact ⟨accepted, applied, rfl, rfl, dispatches⟩

theorem get?_roundSenderPeerIds {sender : Address} {peerId : String} :
    (host.roundSenderPeerIds request).get? sender = some peerId ↔ ∃ preview,
      host.pendingPreviews.get? (host.roundBlock request.toRoundRequest).blockHash =
        some preview ∧ preview.senderPeerIds.get? sender = some peerId := by
  cases found : host.pendingPreviews.get? (host.roundBlock request.toRoundRequest).blockHash with
  | some preview => simp [roundSenderPeerIds, previewsInRound, found]
  | none =>
      simp only [roundSenderPeerIds, previewsInRound, found]
      split_ifs <;> simp [found]

theorem erase_previewsInRound :
    (host.previewsInRound request).erase (host.roundBlock request.toRoundRequest).blockHash =
      host.pendingPreviews.erase (host.roundBlock request.toRoundRequest).blockHash := by
  simp only [previewsInRound]
  split_ifs
  · rfl
  · split
    · rfl
    · exact OrderedDict.erase_set _ _ _

end PreviewingHost

end Committed

/-! ## What previews know -/

theorem get?_withSenderPeer (senderPeerIds : OrderedDict Address String) (sender other : Address)
    (senderPeerId : Option String) :
    (withSenderPeer senderPeerIds sender senderPeerId).get? other =
      (if sender = other then storedPeerId senderPeerId else none).or
        (senderPeerIds.get? other) := by
  rw [withSenderPeer]
  cases storedPeerId senderPeerId with
  | none => simp
  | some peerId =>
      rw [OrderedDict.get?_set]
      split_ifs <;> rfl

theorem get?_carriedSenderPeerIds (previews : OrderedDict H (PendingConsensusPreview H))
    (sender : Address) : (carriedSenderPeerIds previews).get? sender =
      OrderedDict.lastValue sender
        (previews.values.map PendingConsensusPreview.senderPeerIds) := by
  rw [carriedSenderPeerIds, OrderedDict.get?_foldl_update, OrderedDict.get?_empty, Option.or_none]

namespace PreviewingHost

variable [DecidableEq H] {host : PreviewingHost H} {block : BlockV2 H} {sender : Address}
  {senderPeerId : Option String}

/-- The preview of a submission knows the carried peers and the new one, and the next submission
carries them on unless another preview has another peer for the sender. -/
theorem previewsWith_known {other : Address} {peerId : String}
    (known : (withSenderPeer (carriedSenderPeerIds host.pendingPreviews) sender
      senderPeerId).get? other = some peerId)
    (agree : block.blockHash ∈ host.pendingPreviews.keys → ∀ storedId ∈ storedPeerId senderPeerId,
      ∀ entry ∈ host.pendingPreviews.entries, entry.1 ≠ block.blockHash →
        ∀ otherId ∈ entry.2.senderPeerIds.get? sender, otherId = storedId) :
    (∃ preview, (host.previewsWith block sender senderPeerId).get? block.blockHash =
        some preview ∧ preview.senderPeerIds.get? other = some peerId) ∧
      (carriedSenderPeerIds (host.previewsWith block sender senderPeerId)).get? other =
        some peerId := by
  cases found : host.pendingPreviews.get? block.blockHash with
  | none =>
      simp only [previewsWith, found]
      refine ⟨⟨_, OrderedDict.get?_set_self _ _ _, known⟩, ?_⟩
      rw [get?_carriedSenderPeerIds]
      exact known
  | some existing =>
      obtain ⟨front, back, entries_eq⟩ :=
        List.append_of_mem ((OrderedDict.get?_eq_some_iff _ _ _).mp found)
      have peer_eq : (withSenderPeer (existing.senderPeerIds.update
          (carriedSenderPeerIds host.pendingPreviews)) sender senderPeerId).get? other =
            some peerId := by
        rw [get?_withSenderPeer] at known
        rw [get?_withSenderPeer, OrderedDict.get?_update, ← Option.or_assoc, known, Option.some_or]
      -- The previews behind that of the block have the same peer or none.
      have later_agree : ∀ laterId, OrderedDict.lastValue other
          ((back.map Prod.snd).map PendingConsensusPreview.senderPeerIds) = some laterId →
            laterId = peerId := by
        intro laterId last
        rw [get?_withSenderPeer] at known
        rcases Option.or_eq_some_iff.mp known with new | ⟨-, carried⟩
        · split_ifs at new with same
          subst same
          obtain ⟨table, member, table_eq⟩ := OrderedDict.exists_of_lastValue last
          rw [List.map_map] at member
          obtain ⟨entry, entry_mem, rfl⟩ := List.mem_map.mp member
          have nodup := host.pendingPreviews.nodup
          rw [entries_eq, List.map_append, List.map_cons, List.nodup_append, List.nodup_cons]
            at nodup
          have present : block.blockHash ∈ host.pendingPreviews.keys := by
            rw [OrderedDict.keys, entries_eq]
            simp
          refine agree present peerId new entry ?_ (fun hash_eq => ?_) laterId table_eq
          · rw [entries_eq]
            exact List.mem_append_right _ (List.mem_cons_of_mem _ entry_mem)
          · exact nodup.2.1.1 (List.mem_map.mpr ⟨entry, entry_mem, hash_eq⟩)
        · rw [get?_carriedSenderPeerIds, OrderedDict.values, entries_eq, List.map_append,
            List.map_append, OrderedDict.lastValue_append, List.map_cons, List.map_cons,
            OrderedDict.lastValue, last, Option.some_or, Option.some_or] at carried
          exact Option.some.inj carried
      simp only [previewsWith, found]
      refine ⟨⟨_, OrderedDict.get?_set_self _ _ _, peer_eq⟩, ?_⟩
      rw [get?_carriedSenderPeerIds, OrderedDict.values,
        OrderedDict.entries_set_of_split entries_eq, List.map_append, List.map_append,
        OrderedDict.lastValue_append, List.map_cons, List.map_cons, OrderedDict.lastValue, peer_eq]
      cases last : OrderedDict.lastValue other
          ((back.map Prod.snd).map PendingConsensusPreview.senderPeerIds) with
      | none => rfl
      | some laterId =>
          rw [later_agree laterId last]
          rfl

end PreviewingHost

/-! ## What blocks keep -/

section Kept

variable [DecidableEq H] [Crypto H] {property : ChainStateV2 H → Prop}

theorem ConsensusNode.validateAndCommit_keeps
    (kept : ∀ chain block, chain.BlockAccepted block → property chain →
      property (chain.nextState block))
    (node : ConsensusNode H) (block : BlockV2 H) (initially : property node.chain) :
    property (node.validateAndCommit block).2.chain := by
  rw [validateAndCommit]
  cases node.validateProposal block with
  | error message => exact initially
  | ok done =>
      simp only [commitBlock]
      split_ifs
      · exact initially
      by_cases accepted : node.chain.BlockAccepted block
      · rw [chain_applyBlock accepted]
        exact kept _ _ accepted initially
      · obtain ⟨message, raised⟩ := applyBlock_of_not_accepted accepted
        rw [raised]
        exact initially

namespace ConsensusHost

theorem syncAnnouncedBlocks_keeps
    (kept : ∀ chain block, chain.BlockAccepted block → property chain →
      property (chain.nextState block))
    (announced : Option (BlockV2 H)) (responses : ℕ → List (BlockV2 H)) (heights : List ℕ)
    (host : ConsensusHost H) (initially : property host.consensus.chain) :
    property (syncAnnouncedBlocks announced responses heights host).2.consensus.chain := by
  induction heights generalizing host with
  | nil => exact initially
  | cons height heights induction =>
      have same := (host.blockAt_spec announced (responses height) height).1
      rw [syncAnnouncedBlocks]
      cases found : host.blockAt announced (responses height) height with
      | mk result waited =>
          rw [found] at same
          have waiting : property waited.consensus.chain := by
            rw [same]
            exact initially
          cases result with
          | error message => exact waiting
          | ok block =>
              have committed := waited.consensus.validateAndCommit_keeps kept block waiting
              simp only
              cases commits : waited.consensus.validateAndCommit block with
              | mk outcome node =>
                  rw [commits] at committed
                  cases outcome with
                  | error message => exact committed
                  | ok done => exact induction { waited with consensus := node } committed

/-- What every accepted block keeps of a chain survives every envelope. -/
theorem handleEnvelope_keeps
    (kept : ∀ chain block, chain.BlockAccepted block → property chain →
      property (chain.nextState block))
    (host : ConsensusHost H) (envelope : Envelope H) (initially : property host.consensus.chain) :
    property (host.handleEnvelope envelope).2.consensus.chain := by
  have synced : ∀ (start : ConsensusHost H), property start.consensus.chain →
      ∀ height hash announced responses,
        property (start.syncToAnnouncement height hash announced responses).2.consensus.chain := by
    intro start start_property height hash announced responses
    rw [syncToAnnouncement_snd]
    split_ifs
    · exact syncAnnouncedBlocks_keeps kept _ _ _ start start_property
    · exact start_property
  cases envelope with
  | blockAnnounce announcedHeight announcedHash announced responses =>
      cases announced with
      | none => exact synced host initially _ _ _ _
      | some block =>
          simp only [handleEnvelope, onBlockAnnounce]
          cases checkAnnouncement announcedHeight announcedHash block with
          | error message => exact initially
          | ok done => exact synced (host.rememberFetchedBlock block) initially _ _ _ _
  | blockFetchResponse block => cases block <;> exact initially
  | consensusProposal proposal block phase justifyQc =>
      simp only [handleEnvelope, onConsensusProposal]
      split_ifs
      · exact initially
      · cases host.consensus.validateProposal block with
        | error message => exact initially
        | ok done =>
            simp only
            cases host.core.makeVote proposal justifyQc phase with
            | mk result core => cases result <;> exact initially
  | consensusFinalize block commitQc =>
      by_cases commit : commitQc.phase = .commit
      · rw [handleEnvelope, onConsensusFinalize_snd commit,
          (host.finalizeCommittedBlock_snd block commitQc).1]
        exact host.consensus.validateAndCommit_keeps kept block initially
      · simpa [handleEnvelope, onConsensusFinalize, commit] using initially
  | consensusTimeoutVote height round =>
      simp only [handleEnvelope, onConsensusTimeoutVote]
      cases host.core.makeTimeoutVote height round with
      | mk result core => cases result <;> exact initially
  | consensusTimeoutCert tc => exact initially

/-- A round commits its block or leaves the node alone. -/
theorem consensus_runMvpConsensusRound (host : ConsensusHost H) (request : RoundRequest H) :
    (host.runMvpConsensusRound request).2.consensus = host.consensus ∨
      (host.runMvpConsensusRound request).2.consensus =
        (host.consensus.validateAndCommit (host.roundBlock request)).2 := by
  have finished : ∀ committed prepareQc precommitQc commitQc,
      (host.finishRound request committed prepareQc precommitQc commitQc).2.consensus =
        (host.consensus.validateAndCommit (host.roundBlock request)).2 := by
    intro committed prepareQc precommitQc commitQc
    rw [← (finalizeCommittedBlock_snd { host with core := committed } (host.roundBlock request)
      commitQc).1, finishRound]
    split
    next finalized =>
      rw [finalized]
    next finalized =>
      rw [finalized]
      split <;> rfl
  simp only [runMvpConsensusRound]
  split_ifs
  · exact .inl rfl
  · exact .inl rfl
  split
  · exact .inl rfl
  split
  · exact .inl rfl
  split
  · exact .inl rfl
  split
  · exact .inl rfl
  · exact .inr (finished _ _ _ _)

end ConsensusHost

end Kept

/-! ## Single handlers -/

namespace PreviewingHost

variable [DecidableEq H] [Crypto H]

theorem track_spec (host : PreviewingHost H) (submission : BundleSubmission H)
    (senderPeerId : Option String) (now : ℕ) :
    let tracked := host.trackPendingMvpBundle submission senderPeerId now
    tracked.2.autoDispatchReceipts = host.autoDispatchReceipts ∧
      (tracked.2.consensus.chain = host.consensus.chain ∨
        host.consensus.chain.submitBundle submission = .ok tracked.2.consensus.chain) ∧
      tracked.2.pendingPreviews =
        match tracked.1 with
        | .error _ => host.pendingPreviews
        | .ok block => host.previewsWith block submission.sidecar.senderAddr senderPeerId := by
  intro tracked
  unfold tracked trackPendingMvpBundle
  cases submitted : host.consensus.chain.submitBundle submission with
  | error message => exact ⟨rfl, .inl rfl, rfl⟩
  | ok chain =>
      dsimp only
      split_ifs <;> exact ⟨rfl, .inr rfl, rfl⟩

theorem round_spec (host : PreviewingHost H) (request : DispatchRequest H) :
    (host.runMvpConsensusRound request).2.consensus.chain =
        (host.toConsensusHost.runMvpConsensusRound request.toRoundRequest).2.consensus.chain ∧
      (host.runMvpConsensusRound request).2.autoDispatchReceipts = host.autoDispatchReceipts ∧
      ((∀ result, (host.runMvpConsensusRound request).1.1 ≠ .ok result) →
        (host.runMvpConsensusRound request).2.pendingPreviews = host.previewsInRound request) := by
  rw [runMvpConsensusRound]
  rcases host.toConsensusHost.runMvpConsensusRound request.toRoundRequest with
    ⟨_ | result, final⟩
  · exact ⟨rfl, rfl, fun _ => rfl⟩
  dsimp only
  split
  · exact ⟨rfl, rfl, fun _ => rfl⟩
  split
  · exact ⟨rfl, rfl, fun _ => rfl⟩
  · exact ⟨rfl, rfl, fun fails => absurd rfl (fails _)⟩

theorem carried_previewsInRound (host : PreviewingHost H) (request : DispatchRequest H)
    (sender : Address) :
    (carriedSenderPeerIds (host.previewsInRound request)).get? sender =
      (carriedSenderPeerIds host.pendingPreviews).get? sender := by
  simp only [previewsInRound]
  split_ifs
  · rfl
  split
  · rfl
  next absent =>
    rw [get?_carriedSenderPeerIds, get?_carriedSenderPeerIds, OrderedDict.values,
      OrderedDict.entries_set_of_notMem _ ((OrderedDict.get?_eq_none_iff _ _).mp absent),
      List.map_append, List.map_append, OrderedDict.lastValue_append]
    rfl

theorem get?_previewsInRound {host : PreviewingHost H} {request : DispatchRequest H}
    {blockHash : H} {preview : PendingConsensusPreview H}
    (found : host.pendingPreviews.get? blockHash = some preview) :
    (host.previewsInRound request).get? blockHash = some preview := by
  simp only [previewsInRound]
  split_ifs
  · exact found
  split
  · exact found
  next absent =>
    rw [OrderedDict.get?_set_of_ne _ fun same => ?_]
    · exact found
    · rw [same, found] at absent
      cases absent

end PreviewingHost

/-! ## Tracked bundles -/

/-- A host with what its previews should know: the peer that last submitted the pending bundle of a
sender, and the hash of the block that was previewed last. -/
structure TrackedHost (H : Type) extends PreviewingHost H where
  /-- History: the peer that last submitted the pending bundle of a sender. -/
  recorded : OrderedDict Address String
  /-- History: the hash of the block that was previewed last. -/
  trackedHash : Option H

/-- What happens to a host. -/
inductive DispatchEvent (H : Type) [DecidableEq H] where
  | track (submission : BundleSubmission H) (senderPeerId : Option String) (now : ℕ)
  | round (request : DispatchRequest H)
  | receive (envelope : ConsensusHost.Envelope H)

namespace TrackedHost

variable [DecidableEq H]

/-- Only the peers of senders with a pending bundle are kept in the record. -/
def settle (host : TrackedHost H) : TrackedHost H :=
  { host with
    recorded := host.recorded.filterKeys fun sender =>
      (host.consensus.chain.bundlePool.pendingBySender.get? sender).isSome }

variable [Crypto H]

/-- The host after an event, whether or not its handler raised. -/
def step (host : TrackedHost H) : DispatchEvent H → TrackedHost H
  | .track submission senderPeerId now =>
      match host.trackPendingMvpBundle submission senderPeerId now with
      | (.error _, next) => settle { host with toPreviewingHost := next }
      | (.ok block, next) =>
          settle
            { toPreviewingHost := next
              recorded := withSenderPeer host.recorded submission.sidecar.senderAddr senderPeerId
              trackedHash := some block.blockHash }
  | .round request =>
      settle { host with toPreviewingHost := (host.runMvpConsensusRound request).2 }
  | .receive envelope =>
      settle { host with toConsensusHost := (host.toConsensusHost.handleEnvelope envelope).2 }

/-- The host after a run. -/
def run (host : TrackedHost H) (events : List (DispatchEvent H)) : TrackedHost H :=
  events.foldl step host

/-- A host that has just been opened on the blocks of its store: nothing was tracked yet. -/
structure Opened (host : TrackedHost H) : Prop where
  chain : ∃ (version chainId receiptCacheBlocks maxBundleBytes maxTxPerBundle
      maxValueEntriesPerTx : ℕ) (genesisBlockHash : H) (blocks : List (BlockV2 H)),
    (ChainStateV2.new version chainId receiptCacheBlocks maxBundleBytes maxTxPerBundle
      maxValueEntriesPerTx genesisBlockHash).applyBlocks blocks = .ok host.consensus.chain
  autoDispatchReceipts : host.autoDispatchReceipts = true
  pendingPreviews : host.pendingPreviews = ∅
  recorded : host.recorded = ∅

/-- The diff entries of a round's block. -/
def packedEntries (host : TrackedHost H) (request : DispatchRequest H) : List (DiffEntry H) :=
  (host.roundBlock request.toRoundRequest).diffPackage.diffEntries

/-- The round returns that it committed its block. -/
def Commits (host : TrackedHost H) (request : DispatchRequest H) : Prop :=
  ∃ result, (host.runMvpConsensusRound request).1.1 = .ok result

/-- Every sender whose bundle is confirmed is sent its receipt at the recorded peer, and the
recorded peers of the other bundles are carried on. -/
structure Serves (host : TrackedHost H) (request : DispatchRequest H) : Prop where
  sent : ∀ entry ∈ host.packedEntries request,
    ∀ peerId ∈ host.recorded.get? entry.newLeaf.addr, ∃ receipt,
      (host.consensus.chain.blockReceipts (host.roundBlock request.toRoundRequest)).get?
        entry.newLeaf.addr = some receipt ∧
      ⟨entry.newLeaf.addr, peerId, receipt⟩ ∈ (host.runMvpConsensusRound request).1.2
  kept : ∀ sender, (∀ entry ∈ host.packedEntries request, entry.newLeaf.addr ≠ sender) →
    ∀ peerId ∈ host.recorded.get? sender,
      (carriedSenderPeerIds (host.runMvpConsensusRound request).2.pendingPreviews).get? sender =
        some peerId

/-- The preview under the hash of the round's block has the recorded peers of the packed bundles,
and the other previews have those of the bundles that the round leaves out. -/
structure Finds (host : TrackedHost H) (request : DispatchRequest H) : Prop where
  packed : ∀ entry ∈ host.packedEntries request,
    ∀ peerId ∈ host.recorded.get? entry.newLeaf.addr, ∃ preview,
      host.pendingPreviews.get? (host.roundBlock request.toRoundRequest).blockHash = some preview ∧
        preview.senderPeerIds.get? entry.newLeaf.addr = some peerId
  others : ∀ sender, (∀ entry ∈ host.packedEntries request, entry.newLeaf.addr ≠ sender) →
    ∀ peerId ∈ host.recorded.get? sender,
      (carriedSenderPeerIds (host.pendingPreviews.erase
        (host.roundBlock request.toRoundRequest).blockHash)).get? sender = some peerId

/-! ## One round -/

section Round

variable {host : TrackedHost H} {request : DispatchRequest H}

/-- A round that commits serves the senders exactly when its preview has their recorded peers. -/
theorem serves_iff_finds (dispatches : host.autoDispatchReceipts = true)
    (positive : 0 < host.consensus.chain.receiptCache.maxBlocks)
    (commits : host.Commits request) : host.Serves request ↔ host.Finds request := by
  obtain ⟨result, returns⟩ := commits
  obtain ⟨accepted, -, deliveries_eq, previews_eq, -⟩ :=
    PreviewingHost.round_of_returns dispatches positive returns
  rw [PreviewingHost.erase_previewsInRound] at previews_eq
  have delivered : ∀ entry ∈ host.packedEntries request, ∀ peerId,
      (∃ receipt, (host.consensus.chain.blockReceipts
          (host.roundBlock request.toRoundRequest)).get? entry.newLeaf.addr = some receipt ∧
        ⟨entry.newLeaf.addr, peerId, receipt⟩ ∈ (host.runMvpConsensusRound request).1.2) ↔
      ∃ preview, host.pendingPreviews.get?
          (host.roundBlock request.toRoundRequest).blockHash = some preview ∧
        preview.senderPeerIds.get? entry.newLeaf.addr = some peerId := by
    intro entry member peerId
    have stored := ChainStateV2.get?_blockReceipts accepted member
    rw [deliveries_eq, ← PreviewingHost.get?_roundSenderPeerIds]
    constructor
    · rintro ⟨receipt, -, dispatched⟩
      exact (PreviewingHost.mem_deliveriesOf.mp dispatched).2.1
    · intro known
      exact ⟨_, stored, PreviewingHost.mem_deliveriesOf.mpr ⟨⟨entry, member, rfl⟩, known, stored⟩⟩
  constructor
  · intro serves
    refine ⟨fun entry member peerId recorded =>
      (delivered entry member peerId).mp (serves.sent entry member peerId recorded), ?_⟩
    rw [← previews_eq]
    exact serves.kept
  · intro finds
    refine ⟨fun entry member peerId recorded =>
      (delivered entry member peerId).mpr (finds.packed entry member peerId recorded), ?_⟩
    rw [previews_eq]
    exact finds.others

end Round

/-! ## Runs -/

/-- What holds of a host at any time. -/
structure Sound (host : TrackedHost H) : Prop where
  wellFormed : host.consensus.chain.WellFormed
  positive : 0 < host.consensus.chain.receiptCache.maxBlocks
  dispatches : host.autoDispatchReceipts = true

/-- The recorded peers are carried on, and the preview of the block that was previewed last has all
of them. -/
structure Recalls (host : TrackedHost H) : Prop where
  carried : ∀ sender, ∀ peerId ∈ host.recorded.get? sender,
    (carriedSenderPeerIds host.pendingPreviews).get? sender = some peerId
  tracked : ∀ sender, ∀ peerId ∈ host.recorded.get? sender, ∃ blockHash preview,
    host.trackedHash = some blockHash ∧ host.pendingPreviews.get? blockHash = some preview ∧
      preview.senderPeerIds.get? sender = some peerId

/-- When a submission is previewed as an earlier one was, no other preview has another peer for its
sender. -/
def Retracks (host : TrackedHost H) (submission : BundleSubmission H)
    (senderPeerId : Option String) (now : ℕ) : Prop :=
  ∀ block next, host.trackPendingMvpBundle submission senderPeerId now = (.ok block, next) →
    block.blockHash ∈ host.pendingPreviews.keys → ∀ peerId ∈ storedPeerId senderPeerId,
      ∀ other ∈ host.pendingPreviews.entries, other.1 ≠ block.blockHash →
        ∀ otherId ∈ other.2.senderPeerIds.get? submission.sidecar.senderAddr, otherId = peerId

/-- The round runs for the block that was previewed last and packs all bundles with a recorded peer,
or it packs none of them and its block has no preview. -/
def RunsPreviewed (host : TrackedHost H) (request : DispatchRequest H) : Prop :=
  (host.trackedHash = some (host.roundBlock request.toRoundRequest).blockHash ∧
    ∀ sender ∈ host.recorded.keys,
      ∃ entry ∈ host.packedEntries request, entry.newLeaf.addr = sender) ∨
  ((host.roundBlock request.toRoundRequest).blockHash ∉ host.pendingPreviews.keys ∧
    ∀ entry ∈ host.packedEntries request, entry.newLeaf.addr ∉ host.recorded.keys)

/-- The condition on one event of a run. -/
def Steady (host : TrackedHost H) : DispatchEvent H → Prop
  | .track submission senderPeerId now => host.Retracks submission senderPeerId now
  | .round request => host.Commits request → host.RunsPreviewed request
  | .receive _ => True

/-- Every round that commits serves its senders. -/
def ServesRounds (host : TrackedHost H) : DispatchEvent H → Prop
  | .round request => host.Commits request → host.Serves request
  | .track _ _ _ | .receive _ => True

section Runs

variable {host : TrackedHost H}

/-! ### What is always so -/

/-- The chain of a sound host. -/
def SoundChain (chain : ChainStateV2 H) : Prop :=
  chain.WellFormed ∧ 0 < chain.receiptCache.maxBlocks

theorem soundChain_nextState (chain : ChainStateV2 H) (block : BlockV2 H)
    (accepted : chain.BlockAccepted block) (sound : SoundChain chain) :
    SoundChain (chain.nextState block) := by
  refine ⟨sound.1.nextState accepted, ?_⟩
  rw [ChainStateV2.maxBlocks_nextState]
  exact sound.2

theorem soundChain_submitBundle {chain next : ChainStateV2 H} {submission : BundleSubmission H}
    (sound : SoundChain chain) (submitted : chain.submitBundle submission = .ok next) :
    SoundChain next := by
  refine ⟨sound.1.submitBundle submitted, ?_⟩
  simp only [ChainStateV2.submitBundle, bind_eq_ok, pure_eq_ok] at submitted
  obtain ⟨_, _, _, _, rfl⟩ := submitted
  exact sound.2

theorem Opened.sound (opened : host.Opened) : host.Sound := by
  obtain ⟨version, chainId, receiptCacheBlocks, maxBundleBytes, maxTxPerBundle,
    maxValueEntriesPerTx, genesisBlockHash, blocks, applied⟩ := opened.chain
  have fresh : SoundChain (.new version chainId receiptCacheBlocks maxBundleBytes maxTxPerBundle
      maxValueEntriesPerTx genesisBlockHash : ChainStateV2 H) :=
    ⟨ChainStateV2.wellFormed_new _ _ _ _ _ _ _, lt_max_of_lt_left one_pos⟩
  obtain ⟨wellFormed, positive⟩ := ChainStateV2.applyBlocks_induction
    (motive := fun _ chain => SoundChain chain) fresh
    (fun _ chain block _ sound accepted => soundChain_nextState chain block accepted sound) applied
  exact ⟨wellFormed, positive, opened.autoDispatchReceipts⟩

theorem Sound.step (sound : host.Sound) (event : DispatchEvent H) : (host.step event).Sound := by
  have chain_sound : SoundChain host.consensus.chain := ⟨sound.wellFormed, sound.positive⟩
  cases event with
  | track submission senderPeerId now =>
      obtain ⟨dispatches, chain_eq, -⟩ :=
        host.track_spec submission senderPeerId now
      have next_sound : SoundChain
          (host.trackPendingMvpBundle submission senderPeerId now).2.consensus.chain := by
        rcases chain_eq with same | submitted
        · rw [same]
          exact chain_sound
        · exact soundChain_submitBundle chain_sound submitted
      simp only [TrackedHost.step]
      rcases tracks : host.trackPendingMvpBundle submission senderPeerId now with
        ⟨_ | block, next⟩ <;>
      · rw [tracks] at dispatches next_sound
        exact ⟨next_sound.1, next_sound.2, dispatches.trans sound.dispatches⟩
  | round request =>
      obtain ⟨chain_eq, dispatches, -⟩ := host.round_spec request
      have next_sound : SoundChain (host.runMvpConsensusRound request).2.consensus.chain := by
        rw [chain_eq]
        rcases host.toConsensusHost.consensus_runMvpConsensusRound request.toRoundRequest with
          same | committed
        · rw [same]
          exact chain_sound
        · rw [committed]
          exact ConsensusNode.validateAndCommit_keeps soundChain_nextState _ _ chain_sound
      exact ⟨next_sound.1, next_sound.2, dispatches.trans sound.dispatches⟩
  | receive envelope =>
      have next_sound := ConsensusHost.handleEnvelope_keeps soundChain_nextState
        host.toConsensusHost envelope chain_sound
      exact ⟨next_sound.1, next_sound.2, sound.dispatches⟩

/-! ### What steady runs keep -/

omit [DecidableEq H] [Crypto H] in
theorem get?_recorded_settle {sender : Address} {peerId : String} :
    host.settle.recorded.get? sender = some peerId ↔
      (host.consensus.chain.bundlePool.pendingBySender.get? sender).isSome ∧
        host.recorded.get? sender = some peerId := by
  rw [settle, OrderedDict.get?_filterKeys]
  split_ifs with pending <;> simp [pending]

omit [Crypto H] in
theorem Recalls.settle (recalls : host.Recalls) : host.settle.Recalls where
  carried sender peerId recorded :=
    recalls.carried sender peerId (get?_recorded_settle.mp recorded).2
  tracked sender peerId recorded :=
    recalls.tracked sender peerId (get?_recorded_settle.mp recorded).2

/-- A tracked submission is known, and so is what was known before. -/
theorem Recalls.track (recalls : host.Recalls) {submission : BundleSubmission H}
    {senderPeerId : Option String} {now : ℕ} {block : BlockV2 H} {next : PreviewingHost H}
    (retracks : host.Retracks submission senderPeerId now)
    (tracks : host.trackPendingMvpBundle submission senderPeerId now = (.ok block, next)) :
    Recalls
      { toPreviewingHost := next
        recorded := withSenderPeer host.recorded submission.sidecar.senderAddr senderPeerId
        trackedHash := some block.blockHash } := by
  have previews_eq := (host.track_spec submission senderPeerId now).2.2
  rw [tracks] at previews_eq
  have known : ∀ sender, ∀ peerId ∈
      (withSenderPeer host.recorded submission.sidecar.senderAddr senderPeerId).get? sender,
      (withSenderPeer (carriedSenderPeerIds host.pendingPreviews) submission.sidecar.senderAddr
        senderPeerId).get? sender = some peerId := by
    intro sender peerId recorded
    rw [get?_withSenderPeer] at recorded ⊢
    rcases Option.or_eq_some_iff.mp recorded with new | ⟨old, recorded⟩
    · rw [new, Option.some_or]
    · rw [old, Option.none_or]
      exact recalls.carried sender peerId recorded
  refine ⟨fun sender peerId recorded => ?_, fun sender peerId recorded => ?_⟩
  · rw [previews_eq]
    exact (PreviewingHost.previewsWith_known (known sender peerId recorded)
      (retracks block next tracks)).2
  · obtain ⟨⟨preview, found, peer_eq⟩, -⟩ := PreviewingHost.previewsWith_known
      (known sender peerId recorded) (retracks block next tracks)
    exact ⟨block.blockHash, preview, rfl, by rw [previews_eq]; exact found, peer_eq⟩

theorem Recalls.inRound (recalls : host.Recalls) (request : DispatchRequest H)
    {next : PreviewingHost H} (previews_eq : next.pendingPreviews = host.previewsInRound request) :
    Recalls { host with toPreviewingHost := next } := by
  refine ⟨fun sender peerId recorded => ?_, fun sender peerId recorded => ?_⟩
  · rw [previews_eq, PreviewingHost.carried_previewsInRound]
    exact recalls.carried sender peerId recorded
  · obtain ⟨blockHash, preview, tracked_eq, found, peer_eq⟩ :=
      recalls.tracked sender peerId recorded
    refine ⟨blockHash, preview, tracked_eq, ?_, peer_eq⟩
    rw [previews_eq]
    exact PreviewingHost.get?_previewsInRound found

theorem pending_nextState {chain : ChainStateV2 H} {block : BlockV2 H}
    (wellFormed : chain.WellFormed) (accepted : chain.BlockAccepted block) {entry : DiffEntry H}
    (member : entry ∈ block.diffPackage.diffEntries) :
    (chain.nextState block).bundlePool.pendingBySender.get? entry.newLeaf.addr = none := by
  cases found : (chain.nextState block).bundlePool.pendingBySender.get? entry.newLeaf.addr with
  | none => rfl
  | some waiting =>
      have sender_eq := ((wellFormed.nextState accepted).pool _ waiting found).1
      have waits := ChainStateV2.mem_pending_iff.mpr ⟨_, found⟩
      have others := ((wellFormed.mem_pending_nextState accepted waiting).mp waits).2
      exact absurd sender_eq.symm (others entry member)

/-- A round that commits and runs for the block that was previewed last confirms all recorded
bundles or none. -/
theorem Recalls.committed (sound : host.Sound) (recalls : host.Recalls)
    {request : DispatchRequest H} (commits : host.Commits request)
    (previewed : host.RunsPreviewed request) : (host.step (.round request)).Recalls := by
  obtain ⟨result, returns⟩ := commits
  obtain ⟨accepted, applied, -, previews_eq, -⟩ :=
    PreviewingHost.round_of_returns sound.dispatches sound.positive returns
  rcases previewed with ⟨-, all_packed⟩ | ⟨absent, -⟩
  · have forgotten : ∀ sender peerId,
        (host.step (.round request)).recorded.get? sender ≠ some peerId := by
      intro sender peerId recorded
      obtain ⟨pending, recorded⟩ := get?_recorded_settle.mp recorded
      have known : sender ∈ host.recorded.keys := by
        by_contra unknown
        rw [(OrderedDict.get?_eq_none_iff _ _).mpr unknown] at recorded
        cases recorded
      obtain ⟨entry, member, rfl⟩ := all_packed sender known
      have gone := pending_nextState sound.wellFormed accepted member
      rw [← applied] at gone
      rw [gone] at pending
      cases pending
    exact ⟨fun sender peerId recorded => absurd recorded (forgotten sender peerId),
      fun sender peerId recorded => absurd recorded (forgotten sender peerId)⟩
  · rw [PreviewingHost.erase_previewsInRound, OrderedDict.erase_of_notMem _ absent] at previews_eq
    refine Recalls.settle ⟨fun sender peerId recorded => ?_, fun sender peerId recorded => ?_⟩
    · rw [previews_eq]
      exact recalls.carried sender peerId recorded
    · rw [previews_eq]
      exact recalls.tracked sender peerId recorded

theorem Recalls.step (sound : host.Sound) (recalls : host.Recalls) {event : DispatchEvent H}
    (steady : host.Steady event) : (host.step event).Recalls := by
  cases event with
  | track submission senderPeerId now =>
      have previews_eq := (host.track_spec submission senderPeerId now).2.2
      simp only [TrackedHost.step]
      rcases tracks : host.trackPendingMvpBundle submission senderPeerId now with
        ⟨_ | block, next⟩
      · simp only [tracks] at previews_eq
        refine Recalls.settle ⟨fun sender peerId recorded => ?_, fun sender peerId recorded => ?_⟩
        · rw [previews_eq]
          exact recalls.carried sender peerId recorded
        · rw [previews_eq]
          exact recalls.tracked sender peerId recorded
      · exact (recalls.track steady tracks).settle
  | round request =>
      by_cases commits : host.Commits request
      · exact recalls.committed sound commits (steady commits)
      · have previews_eq := (host.round_spec request).2.2 fun result returns =>
          commits ⟨result, returns⟩
        exact (recalls.inRound request previews_eq).settle
  | receive envelope => exact Recalls.settle ⟨recalls.carried, recalls.tracked⟩

/-- In a steady run a round that commits finds the recorded peers. -/
theorem Recalls.serves (sound : host.Sound) (recalls : host.Recalls) {event : DispatchEvent H}
    (steady : host.Steady event) : host.ServesRounds event := by
  cases event with
  | track submission senderPeerId now => trivial
  | receive envelope => trivial
  | round request =>
      intro commits
      rw [serves_iff_finds sound.dispatches sound.positive commits]
      have known : ∀ {sender peerId}, host.recorded.get? sender = some peerId →
          sender ∈ host.recorded.keys := by
        intro sender peerId recorded
        by_contra unknown
        rw [(OrderedDict.get?_eq_none_iff _ _).mpr unknown] at recorded
        cases recorded
      rcases steady commits with ⟨tracked_eq, all_packed⟩ | ⟨absent, none_packed⟩
      · refine ⟨fun entry _ peerId recorded => ?_, fun sender unpacked peerId recorded => ?_⟩
        · obtain ⟨blockHash, preview, hash_eq, found, peer_eq⟩ :=
            recalls.tracked _ peerId recorded
          obtain rfl := Option.some.inj (hash_eq.symm.trans tracked_eq)
          exact ⟨preview, found, peer_eq⟩
        · obtain ⟨entry, member, same⟩ := all_packed sender (known recorded)
          exact absurd same (unpacked entry member)
      · refine ⟨fun entry member peerId recorded => ?_, fun sender _ peerId recorded => ?_⟩
        · exact absurd (known recorded) (none_packed entry member)
        · rw [OrderedDict.erase_of_notMem _ absent]
          exact recalls.carried sender peerId recorded

end Runs

/-- In every run a round that commits serves its senders exactly when the preview under the hash of
its block has the recorded peers of the packed bundles and the other previews have those of the
bundles left out.  In a run whose committing rounds run for the block that was previewed last, and
which tracks no submission for an earlier preview while another one has a different peer for its
sender, they all do. -/
theorem servesRounds_iff {host : TrackedHost H} (opened : host.Opened)
    (events : List (DispatchEvent H)) :
    (∀ request, (host.run events).Commits request →
      ((host.run events).Serves request ↔ (host.run events).Finds request)) ∧
      (Runs.Along step Steady host events → Runs.Along step ServesRounds host events) := by
  have sound_run : ∀ (start : TrackedHost H), start.Sound → (start.run events).Sound := by
    intro start sound
    induction events generalizing start with
    | nil => exact sound
    | cons event rest induction => exact induction _ (sound.step event)
  have sound := opened.sound
  refine ⟨fun request commits => ?_, fun steady => ?_⟩
  · have later := sound_run host sound
    exact serves_iff_finds later.dispatches later.positive commits
  · have recalls : host.Recalls := by
      constructor <;>
      · rw [opened.recorded]
        exact fun sender peerId recorded => nomatch recorded
    have kept : ∀ (state : TrackedHost H) (event : DispatchEvent H),
        state.Sound ∧ state.Recalls → state.Steady event →
          (state.step event).Sound ∧ (state.step event).Recalls :=
      fun state event holds met => ⟨holds.1.step event, holds.2.step holds.1 met⟩
    exact steady.imp kept (fun state event holds met => holds.2.serves holds.1 met)
      ⟨sound, recalls⟩

/-! ### A round at another moment -/

section Examples

open SymbolicDigest ConsensusNode

/-- The host of a lone validator as it is opened. -/
def openedHost : TrackedHost SymbolicDigest where
  toConsensusHost := ConsensusHost.loneHost
  autoDispatchReceipts := true
  pendingPreviews := ∅
  recorded := ∅
  trackedHash := none

theorem openedHost_opened : openedHost.Opened where
  chain := ⟨2, 1, 32, 32768, 128, 64, filled 0, [], rfl⟩
  autoDispatchReceipts := rfl
  pendingPreviews := rfl
  recorded := rfl

/-- Alice's first bundle comes from her host at time 5. -/
def firstTracked : DispatchEvent SymbolicDigest :=
  .track firstSubmission (some "alice-host") 5

/-- The block of the tracked bundle at a time. -/
def firstAt (timestamp : ℕ) : BlockV2 SymbolicDigest :=
  pendingFirst.builtBlock timestamp [] [] none

/-- A round of the lone validator at a time. -/
def roundAt (timestamp : ℕ) : DispatchRequest SymbolicDigest where
  firstId := "a"
  peers := []
  limit := none
  timestamp := timestamp
  tables := .empty SymbolicDigest
  supportsPull _ := false

/-- The host after the bundle was tracked. -/
def trackedHost : TrackedHost SymbolicDigest := openedHost.run [firstTracked]

theorem wellFormed_pendingFirst : pendingFirst.WellFormed :=
  (ChainStateV2.wellFormed_new _ _ _ _ _ _ _).submitBundle submitBundle_first

theorem track_first : openedHost.trackPendingMvpBundle firstSubmission (some "alice-host") 5 =
    (.ok (firstAt 5), { openedHost.toPreviewingHost with
      consensus := pendingNode
      pendingPreviews := (∅ : OrderedDict _ _).set (firstAt 5).blockHash
        ⟨firstAt 5, (∅ : OrderedDict _ _).set alice "alice-host"⟩ }) := by
  have submitted : openedHost.consensus.chain.submitBundle firstSubmission = .ok pendingFirst :=
    submitBundle_first
  simp only [PreviewingHost.trackPendingMvpBundle, submitted, if_neg snapshot_pendingFirst]
  rfl

theorem trackedHost_eq : trackedHost = settle
    { toPreviewingHost := { openedHost.toPreviewingHost with
        consensus := pendingNode
        pendingPreviews := (∅ : OrderedDict _ _).set (firstAt 5).blockHash
          ⟨firstAt 5, (∅ : OrderedDict _ _).set alice "alice-host"⟩ }
      recorded := (∅ : OrderedDict _ _).set alice "alice-host"
      trackedHash := some (firstAt 5).blockHash } := by
  simp only [trackedHost, run, firstTracked, List.foldl_cons, List.foldl_nil, step, track_first]
  rfl

theorem recorded_trackedHost : trackedHost.recorded.get? alice = some "alice-host" := by
  rw [trackedHost_eq]
  refine get?_recorded_settle.mpr ⟨?_, OrderedDict.get?_set_self _ _ _⟩
  exact Option.isSome_iff_exists.mpr ⟨firstSubmission, OrderedDict.get?_set_self _ _ _⟩

/-- The lone validator with the pending bundle. -/
def pendingHost : ConsensusHost SymbolicDigest :=
  { ConsensusHost.loneHost with consensus := pendingNode }

theorem toConsensusHost_trackedHost : trackedHost.toConsensusHost = pendingHost := by
  rw [trackedHost_eq]
  rfl

theorem firstAt_accepted (timestamp : ℕ) : pendingFirst.BlockAccepted (firstAt timestamp) :=
  wellFormed_pendingFirst.builtBlock_accepted idealAddrKeys pendingFirst_alive timestamp [] []

theorem returns_pendingHost (timestamp : ℕ) : ∃ result final,
    pendingHost.runMvpConsensusRound (roundAt timestamp).toRoundRequest = (.ok result, final) := by
  have alone : pendingHost.core.Alone (pendingHost.roundProposal (roundAt timestamp).toRoundRequest)
      [.prepare, .precommit, .commit] [.prepare, .precommit, .commit] := by
    constructor
    case fits => exact ⟨one_pos, one_pos, le_rfl, le_rfl⟩
    case choices => exact fun _ _ => rfl
    case counts => exact fun _ _ => rfl
    case chain => exact ⟨rfl, rfl⟩
    case current => exact Nat.le_succ_of_le le_rfl
    all_goals rfl
  have committed : ∃ next, pendingHost.consensus.validateAndCommit
      (pendingHost.roundBlock (roundAt timestamp).toRoundRequest) = (.ok (), next) :=
    exists_commit (firstAt_accepted timestamp) nofun nofun
  obtain ⟨next, commits⟩ := committed
  exact ConsensusHost.returns_of_alone alone rfl rfl snapshot_pendingFirst commits

/-- A round at any time commits Alice's bundle. -/
theorem commits_roundAt (timestamp : ℕ) : trackedHost.Commits (roundAt timestamp) := by
  have dispatches : trackedHost.autoDispatchReceipts = true := by
    rw [trackedHost_eq]
    rfl
  obtain ⟨result, final, runs⟩ := returns_pendingHost timestamp
  obtain ⟨accepted, applied⟩ := ConsensusHost.accepted_of_round runs
  have saved : ∃ tables, trackedHost.committedTables (roundAt timestamp) final = .ok tables := by
    have empty : pendingFirst.receiptCache.FullDepth := by
      intro batchId batch found
      cases found
    have full : final.consensus.chain.receiptCache.FullDepth := by
      rw [applied]
      exact ChainStateV2.fullDepth_nextState empty _
    obtain ⟨tables, saves⟩ := ReceiptTables.exists_saveAppliedBlock accepted rfl (full _) _
    rw [PreviewingHost.committedTables, toConsensusHost_trackedHost,
      ChainStateV2.applyBlock_of_accepted accepted]
    exact ⟨tables, saves⟩
  obtain ⟨tables, saves⟩ := saved
  rw [← toConsensusHost_trackedHost] at runs
  have positive : 0 < trackedHost.consensus.chain.receiptCache.maxBlocks := by
    rw [toConsensusHost_trackedHost]
    exact Nat.zero_lt_succ 31
  have dispatched := PreviewingHost.dispatch_of_saved dispatches positive runs saves
  refine ⟨result, ?_⟩
  simp only [PreviewingHost.runMvpConsensusRound, runs, saves, dispatched]

theorem packedEntries_roundAt (timestamp : ℕ) :
    trackedHost.packedEntries (roundAt timestamp) =
      (firstAt timestamp).diffPackage.diffEntries := by
  rw [packedEntries, toConsensusHost_trackedHost]
  rfl

/-- A round at the time of the submission sends Alice's receipt to her host. -/
theorem serves_roundAt_tracked :
    trackedHost.Commits (roundAt 5) ∧ trackedHost.Serves (roundAt 5) := by
  have known : ∀ sender ∈ trackedHost.recorded.keys, sender = alice := by
    intro sender member
    by_contra other
    have absent : trackedHost.recorded.get? sender = none := by
      rw [trackedHost_eq, settle, OrderedDict.get?_filterKeys,
        OrderedDict.get?_set_of_ne _ (Ne.symm other)]
      split <;> rfl
    exact (OrderedDict.get?_eq_none_iff _ _).mp absent member
  have retracks : openedHost.Retracks firstSubmission (some "alice-host") 5 := by
    intro block next _ present
    cases present
  have previewed : trackedHost.RunsPreviewed (roundAt 5) := by
    refine .inl ⟨?_, fun sender member => ?_⟩
    · rw [toConsensusHost_trackedHost, trackedHost_eq]
      rfl
    · rw [known sender member, packedEntries_roundAt]
      exact ⟨_, List.mem_cons_self, rfl⟩
  have steady : Runs.Along step Steady openedHost [firstTracked, .round (roundAt 5)] :=
    ⟨retracks, fun _ => previewed, trivial⟩
  obtain ⟨-, serves, -⟩ := (servesRounds_iff openedHost_opened _).2 steady
  exact ⟨commits_roundAt 5, serves (commits_roundAt 5)⟩

/-- A round one second later commits the bundle and sends no receipt. -/
theorem not_serves_roundAt_later :
    trackedHost.Commits (roundAt 6) ∧ ¬ trackedHost.Serves (roundAt 6) := by
  refine ⟨commits_roundAt 6, fun serves => ?_⟩
  have dispatches : trackedHost.autoDispatchReceipts = true := by
    rw [trackedHost_eq]
    rfl
  have positive : 0 < trackedHost.consensus.chain.receiptCache.maxBlocks := by
    rw [toConsensusHost_trackedHost]
    exact Nat.zero_lt_succ 31
  have finds := (serves_iff_finds dispatches positive (commits_roundAt 6)).mp serves
  have packed := finds.packed
  rw [packedEntries_roundAt] at packed
  obtain ⟨preview, found, -⟩ := packed _ List.mem_cons_self "alice-host" recorded_trackedHost
  rw [toConsensusHost_trackedHost, trackedHost_eq] at found
  have same : (firstAt 5).blockHash = (firstAt 6).blockHash := by
    by_contra other
    have absent : (∅ : OrderedDict SymbolicDigest (PendingConsensusPreview SymbolicDigest)).get?
        (firstAt 6).blockHash = some preview :=
      (OrderedDict.get?_set_of_ne _ other _).symm.trans found
    cases absent
  have times := (deriveBlockHash_injective idealHash same).2.2.1
  cases times

end Examples

end TrackedHost

end EZChain
