import EZChain.Host.LocalWallets

/-!
# Runs of the local network

Every wallet of a local network can go on in every state of a run exactly when the pool takes every
bundle that a wallet builds, every save of a block works, no block pushes a receipt out of the cache
that a wallet still waits for, and every restart finds the pool empty.  In such a run one block and
one synchronization per account settle everything that was pending.
-/

namespace EZChain

open Checks Runs ChainStateV2

variable {H : Type} [Crypto H] [DecidableEq H]

namespace LocalWalletDB

/-- Without a pending bundle the wallet goes on at the seq that the chain expects.  A pending bundle
is in the pool, or the cache has its receipt and the wallet applies it. -/
structure GoesOn (db : LocalWalletDB H) (chain : ChainStateV2 H) : Prop where
  next : db.pendingBundles.keys = [] →
    db.nextSequence = chain.confirmedSeq db.address + 1 ∧
      chain.bundlePool.pendingBySender.get? db.address = none
  pending : ∀ seq context, db.getPendingBundle seq = some context →
    (∃ submission, chain.bundlePool.pendingBySender.get? db.address = some submission ∧
      submission.name = context.name) ∨
    ∃ receipt unit, chain.receiptCache.getReceipt db.address seq = some receipt ∧
      (db.execute (db.onReceiptConfirmed receipt)).1 = .ok unit

variable {db : LocalWalletDB H} {chain : ChainStateV2 H}

theorem Placed.goesOn (placed : db.Placed chain) : db.GoesOn chain where
  next free := by
    obtain ⟨slot, follows⟩ := placed.idle_of_free free
    exact ⟨follows.nextSequence_eq free, slot⟩
  pending := by
    intro seq context found
    cases placed.stands with
    | idle free slot follows =>
        rw [getPendingBundle_of_free free] at found
        cases found
    | pooled submission other pooled =>
        obtain rfl := placed.one _ _ _ _ found pooled.pending
        obtain rfl := Option.some.inj (found.symm.trans pooled.pending)
        exact .inl ⟨submission, pooled.slot, Prod.ext pooled.seq.symm pooled.bundleHash.symm⟩
    | confirmed receipt other cached awaits =>
        obtain rfl := placed.one _ _ _ _ found awaits.pending
        refine .inr ⟨receipt, confirmedUnit receipt other, cached, ?_⟩
        rw [awaits.execute_eq placed.headers]

theorem not_goesOn_of_lost {seq : ℕ} {context : PendingBundleContext H}
    (pending : db.getPendingBundle seq = some context)
    (slot : chain.bundlePool.pendingBySender.get? db.address = none)
    (useless : ∀ receipt unit, chain.receiptCache.getReceipt db.address seq = some receipt →
      (db.execute (db.onReceiptConfirmed receipt)).1 ≠ .ok unit) : ¬ db.GoesOn chain := by
  intro goesOn
  rcases goesOn.pending seq context pending with ⟨submission, found, _⟩ |
    ⟨receipt, unit, cached, applied⟩
  · rw [slot] at found
    cases found
  · exact useless receipt unit cached applied

end LocalWalletDB

namespace ConsensusNode

/-! ## The node -/

/-- What holds of the node of a network. -/
structure Sound (chainId receiptCacheBlocks : ℕ) (genesisBlockHash : H) (node : ConsensusNode H) :
    Prop where
  storeSound : StoreSound chainId receiptCacheBlocks genesisBlockHash node
  logged : ∃ log, FullyLogged (max 1 receiptCacheBlocks) node.chain log
  once : node.chain.ConfirmsOnce
  heights : (node.chain.blocks.map fun block => block.header.height) =
    List.range' 1 node.chain.currentHeight
  committed : ∀ block ∈ node.chain.blocks, Committed block
  stored : ∀ block ∈ node.store.blocks.values, block ∈ node.chain.blocks

variable {chainId receiptCacheBlocks : ℕ} {genesisBlockHash : H} {node : ConsensusNode H}

theorem sound_new (chainId receiptCacheBlocks : ℕ) (genesisBlockHash : H) :
    Sound chainId receiptCacheBlocks genesisBlockHash
      (new chainId receiptCacheBlocks genesisBlockHash) where
  storeSound := storeSound_new chainId receiptCacheBlocks genesisBlockHash
  logged := ⟨[], logged_new 2 chainId receiptCacheBlocks 32768 128 64 genesisBlockHash, rfl,
    List.forall_mem_nil _⟩
  once := ⟨.nil, List.forall_mem_nil _⟩
  heights := rfl
  committed := List.forall_mem_nil _
  stored := List.forall_mem_nil _

theorem Sound.height_le (sound : Sound chainId receiptCacheBlocks genesisBlockHash node) :
    ∀ block ∈ node.chain.blocks, block.header.height ≤ node.chain.currentHeight := by
  intro block member
  have listed := List.mem_map_of_mem (f := fun block : BlockV2 H => block.header.height) member
  rw [sound.heights, List.mem_range'_1] at listed
  omega

theorem Sound.heights_nodup (sound : Sound chainId receiptCacheBlocks genesisBlockHash node) :
    (node.chain.blocks.map fun block => block.header.height).Nodup := by
  rw [sound.heights]
  exact List.nodup_range'

/-- A chain with the same ledger can replace the chain. -/
theorem Sound.restore (sound : Sound chainId receiptCacheBlocks genesisBlockHash node)
    {chain : ChainStateV2 H} {genesis : H} (ledger : chain.SameLedger node.chain)
    (storeSound : StoreSound chainId receiptCacheBlocks genesisBlockHash
      { node with chain := chain, genesisBlockHash := genesis }) :
    Sound chainId receiptCacheBlocks genesisBlockHash
      { node with chain := chain, genesisBlockHash := genesis } := by
  obtain ⟨log, logged⟩ := sound.logged
  have logged := logged.restore ledger storeSound.wellFormed
  obtain ⟨pool, rfl⟩ := ledger
  exact ⟨storeSound, ⟨log, logged⟩, ⟨sound.once.nodup, sound.once.below⟩, sound.heights,
    sound.committed, sound.stored⟩

/-- The store takes the next block, whose height and hash are new. -/
theorem Sound.exists_save (ideal : IdealHash H)
    (sound : Sound chainId receiptCacheBlocks genesisBlockHash node) (request : BlockRequest) :
    let block := node.chain.builtBlock request.timestamp request.proposerSig
      request.consensusExtra request.limit
    let next := (node.chain.buildBlock request.timestamp request.proposerSig
      request.consensusExtra request.limit).2
    ∃ store, node.saveOn (.ok ()) next block (node.chain.blockReceipts block) = .ok store := by
  intro block next
  refine (node.saveOn_eq_ok_iff (.ok ()) next node.chain block).mpr ⟨rfl, ?_, ?_⟩
  · rw [sound.storeSound.heights, List.mem_range'_1]
    have height_eq : block.header.height = node.chain.currentHeight + 1 := rfl
    omega
  · intro stored member same
    have height_le := sound.height_le stored (sound.stored stored member)
    obtain ⟨_, _, _, _, _, _, stored_hash⟩ := (sound.committed stored (sound.stored stored
      member)).blockHash
    obtain ⟨_, _, _, _, _, _, block_hash⟩ := (sound.storeSound.wellFormed.committed_builtBlock
      request.timestamp request.proposerSig request.consensusExtra request.limit).blockHash
    have height_eq := (deriveBlockHash_injective ideal
      (stored_hash.trans (same.trans block_hash.symm))).1
    have block_height : block.header.height = node.chain.currentHeight + 1 := rfl
    have stored_height : stored.header.height = block.header.height := height_eq
    omega

/-- A saved block keeps the node sound. -/
theorem Sound.produce (ideal : IdealHash H) (idealKeys : IdealAddrKeys H)
    (sound : Sound chainId receiptCacheBlocks genesisBlockHash node) {request : BlockRequest}
    (pending : node.chain.bundlePool.snapshot request.limit ≠ [])
    (alive : PackedAlive node.chain request.limit) {store : ConsensusStateStore H}
    (saved : node.saveOn (.ok ()) (node.chain.buildBlock request.timestamp request.proposerSig
      request.consensusExtra request.limit).2 (node.chain.builtBlock request.timestamp
        request.proposerSig request.consensusExtra request.limit)
      (node.chain.blockReceipts (node.chain.builtBlock request.timestamp request.proposerSig
        request.consensusExtra request.limit)) = .ok store) :
    Sound chainId receiptCacheBlocks genesisBlockHash
      { node with
        chain := (node.chain.buildBlock request.timestamp request.proposerSig
          request.consensusExtra request.limit).2
        store := store } := by
  let block := node.chain.builtBlock request.timestamp request.proposerSig
    request.consensusExtra request.limit
  let next := (node.chain.buildBlock request.timestamp request.proposerSig
    request.consensusExtra request.limit).2
  have wellFormed := sound.storeSound.wellFormed
  obtain ⟨log, logged⟩ := sound.logged
  have saved : node.save next block (node.chain.blockReceipts block) = .ok store := saved
  have built : node.chain.buildBlock request.timestamp request.proposerSig request.consensusExtra
      request.limit = ((block, node.chain.blockReceipts block), next) :=
    Prod.ext (node.chain.buildBlock_eq _ _ _ _).1 rfl
  have blocks_eq : next.blocks = node.chain.blocks ++ [block] := rfl
  exact
    { storeSound := sound.storeSound.step idealKeys (.produceBlock pending alive built saved)
      logged := ⟨_, logged.buildBlock ideal (by omega) pending⟩
      once := sound.once.buildBlock wellFormed
      heights := by
        change next.blocks.map _ = List.range' 1 (node.chain.currentHeight + 1)
        rw [blocks_eq, List.map_append, sound.heights, List.range'_concat, Nat.one_mul,
          Nat.add_comm 1]
        rfl
      committed := by
        intro other member
        rcases List.mem_append.mp (blocks_eq ▸ member : other ∈ node.chain.blocks ++ [block]) with
          earlier | added
        · exact sound.committed other earlier
        · rw [List.mem_singleton.mp added]
          exact wellFormed.committed_builtBlock _ _ _ _
      stored := by
        intro other member
        obtain ⟨key, found⟩ := (OrderedDict.mem_values_iff _ _).mp member
        change store.blocks.get? key = some other at found
        rw [(save_eq_ok saved).2.1, OrderedDict.get?_set] at found
        apply List.mem_append.mpr
        split at found
        · exact .inr (List.mem_singleton.mpr (Option.some.inj found).symm)
        · exact .inl (sound.stored other ((OrderedDict.mem_values_iff _ _).mpr ⟨key, found⟩)) }

omit [DecidableEq H] in
theorem slot_of_loaded [DecidableEq H] {store : ConsensusStateStore H} {chain : ChainStateV2 H}
    (loaded : store.loadChainState 2 chainId receiptCacheBlocks genesisBlockHash = .ok chain)
    (address : Address) : chain.bundlePool.pendingBySender.get? address = none := by
  rw [ConsensusStateStore.loadChainState] at loaded
  split at loaded
  · rw [← Except.ok.inj loaded]
    rfl
  · simp only [bind_eq_ok, require_eq_ok, exists_const, pure_eq_ok] at loaded
    obtain ⟨_, _, replayed, applied, _, _, _, rfl⟩ := loaded
    refine applyBlocks_induction
      (motive := fun _ state => state.bundlePool.pendingBySender.get? address = none) rfl ?_ applied
    intro _ state block _ empty _
    refine Option.eq_none_iff_forall_ne_some.mpr fun submission found => ?_
    obtain ⟨earlier, _⟩ := get?_foldl_removeFinalizedBundle block.diffPackage.diffEntries
      (fun entry => entry.newLeaf.addr) (fun entry => entry.bundleEnvelope.seq)
      DiffEntry.bundleHash state.bundlePool found
    rw [empty] at earlier
    cases earlier

end ConsensusNode

namespace LocalParticipant

/-! ## Sharing a block -/

/-- The participant that saw the block and got its receipt. -/
def informed (block : BlockV2 H) (receipts : OrderedDict Address (Receipt H)) (address : Address)
    (participant : LocalParticipant H) : LocalParticipant H :=
  match receipts.get? address with
  | none => participant.observeBlock block
  | some receipt => (participant.observeBlock block).delivered receipt

theorem get?_informed (participants : OrderedDict Address (LocalParticipant H))
    (block : BlockV2 H) (receipts : OrderedDict Address (Receipt H)) (address : Address) :
    (deliverReceipts (participants.mapValues fun participant => participant.observeBlock block)
      receipts.entries).2.get? address =
        (participants.get? address).map (informed block receipts address) := by
  rw [get?_deliverReceipts receipts.nodup, OrderedDict.get?_mapValues]
  unfold informed
  change (match receipts.get? address with | none => _ | some receipt => _) = _
  cases receipts.get? address with
  | none => rfl
  | some receipt => exact Option.map_map _ _ _

end LocalParticipant

namespace V2LocalNetwork

/-! ## The network -/

/-- Every wallet of the network can go on. -/
def WalletsGoOn (net : V2LocalNetwork H) : Prop :=
  ∀ address participant, net.participants.get? address = some participant →
    participant.wallet.GoesOn net.consensus.chain

/-- The record ids that a payment generates are fresh, and no block packs a bundle after its
expiry. -/
def Allowed (net : V2LocalNetwork H) : LocalEvent H → Prop
  | .submitPayment sender call => ∀ participant, net.participants.get? sender = some participant →
      participant.wallet.FreshIds call.recordIds
  | .produceBlock request => ConsensusNode.PackedAlive net.consensus.chain request.limit
  | .addAccount _ _ | .allocateGenesisValue _ _ _ | .deliverPayment _ _ _ _ _ _
  | .syncReceipts _ | .restartConsensus => True

/-- The next block keeps the cached receipt of every pending bundle in the cache. -/
def KeepsReceipts (net : V2LocalNetwork H) : Prop :=
  ∀ address participant, net.participants.get? address = some participant →
    ∀ receipt : Receipt H, participant.wallet.getPendingBundle receipt.seq ≠ none →
      net.consensus.chain.receiptCache.getReceipt address receipt.seq = some receipt →
        net.consensus.chain.currentHeight + 1 <
          receipt.headerLite.height + net.consensus.chain.receiptCache.maxBlocks

/-- The call leaves no bundle behind: the pool takes a bundle that the wallet stores, a block is
saved and forgets no receipt that a wallet waits for, and a restart finds the pool empty. -/
def Keeps (net : V2LocalNetwork H) : LocalEvent H → Prop
  | .submitPayment sender call => ∀ participant, net.participants.get? sender = some participant →
      ∀ tx, ∀ pays : participant.wallet.Pays participant.publicKeyPem call tx,
        net.consensus.chain.WithinLimits ((net.accountNode participant).submissionOf call pays)
  | .produceBlock request => net.consensus.chain.bundlePool.snapshot request.limit ≠ [] →
      request.storage = .ok () ∧ net.KeepsReceipts
  | .restartConsensus => net.consensus.chain.bundlePool.pendingBySender.keys = []
  | .addAccount _ _ | .allocateGenesisValue _ _ _ | .deliverPayment _ _ _ _ _ _
  | .syncReceipts _ => True

/-- Every wallet stands next to the chain, and the chain knows the accounts of wallets only. -/
structure Sound (net : V2LocalNetwork H) : Prop where
  storeOpen : net.storeOpen = true
  node : net.consensus.Sound net.chainId net.receiptCacheBlocks net.genesisBlockHash
  placed : ∀ address participant, net.participants.get? address = some participant →
    participant.wallet.address = address ∧ participant.wallet.Placed net.consensus.chain
  known : ∀ address, net.participants.get? address = none →
    net.consensus.chain.headRefOf address = none ∧
      net.consensus.chain.bundlePool.pendingBySender.get? address = none

variable {net : V2LocalNetwork H} {address : Address} {participant next : LocalParticipant H}

theorem sound_new (chainId receiptCacheBlocks : ℕ) (genesisBlockHash : H)
    (autoConfirmRegisteredWallets : Bool) :
    (new chainId receiptCacheBlocks genesisBlockHash autoConfirmRegisteredWallets).Sound where
  storeOpen := rfl
  node := ConsensusNode.sound_new chainId receiptCacheBlocks genesisBlockHash
  placed := by
    intro address participant found
    cases found
  known _ _ := ⟨rfl, rfl⟩

theorem Sound.goesOn (sound : net.Sound) : net.WalletsGoOn :=
  fun address participant found => (sound.placed address participant found).2.goesOn

/-- A wallet may change as long as it keeps its place. -/
theorem Sound.set (sound : net.Sound) (found : net.participants.get? address = some participant)
    (same : next.wallet.address = participant.wallet.address)
    (placed : next.wallet.Placed net.consensus.chain) :
    Sound { net with participants := net.participants.set address next } where
  storeOpen := sound.storeOpen
  node := sound.node
  placed := by
    intro other otherParticipant otherFound
    rw [OrderedDict.get?_set] at otherFound
    split at otherFound
    next same_key =>
      obtain rfl := Option.some.inj otherFound
      rw [← same_key, same]
      exact ⟨(sound.placed address participant found).1, placed⟩
    next => exact sound.placed other otherParticipant otherFound
  known := by
    intro other absent
    rw [OrderedDict.get?_set] at absent
    split at absent
    next => cases absent
    next => exact sound.known other absent

/-- A call of a wallet that touches neither bundles nor headers. -/
theorem Sound.perform (sound : net.Sound)
    (found : net.participants.get? address = some participant) (call : WalletCall H)
    (passive : call.Passive) (silent : ∀ header, call ≠ .observeCanonicalHeader header) :
    Sound { net with
      participants := net.participants.set address
        { participant with wallet := participant.wallet.perform call } } := by
  have same : participant.wallet.SameBundles (participant.wallet.perform call) := .perform passive
  apply sound.set found same.address
  exact (sound.placed address participant found).2.of_sameBundles same
    (LocalWalletDB.canonicalHeaders_perform passive silent)

/-! ### Accounts, values and transfers -/

theorem Sound.addAccount (sound : net.Sound) (publicKeyPem : Bytes)
    (autoConfirmReceipts : Option Bool) :
    (net.addAccount publicKeyPem autoConfirmReceipts).2.Sound := by
  rw [V2LocalNetwork.addAccount]
  split
  · exact sound
  next address derived =>
    split
    · exact sound
    next fresh =>
      have absent : net.participants.get? address = none :=
        (OrderedDict.get?_eq_none_iff _ _).mpr fresh
      obtain ⟨head, slot⟩ := sound.known address absent
      let wallet : LocalWalletDB H := .new address net.genesisBlockHash
      have none_pending : ∀ seq, wallet.getPendingBundle seq = none := fun _ => rfl
      have stands : wallet.Stands net.consensus.chain := by
        refine .idle rfl slot ?_
        have head : net.consensus.chain.headRefOf wallet.address = none := head
        rw [head]
        exact LocalWalletDB.follows_new address net.genesisBlockHash
      refine ⟨sound.storeOpen, sound.node, ?_, ?_⟩
      · intro other participant found
        rw [OrderedDict.get?_set] at found
        split at found
        next same_key =>
          obtain rfl := Option.some.inj found
          refine ⟨?_, LocalParticipant.placed_register sound.node.heights_nodup
            sound.node.height_le (LocalWalletDB.onePending_of_none none_pending) ?_ stands _⟩
          · rw [LocalParticipant.register_eq]
            exact same_key
          · intro height header known
            cases known
        next => exact sound.placed other participant found
      · intro other unknown
        rw [OrderedDict.get?_set] at unknown
        split at unknown
        next => cases unknown
        next => exact sound.known other unknown

theorem Sound.allocateGenesisValue (sound : net.Sound) (address : Address) (value : ValueRange)
    (recordId : String) : (net.allocateGenesisValue address value recordId).2.Sound := by
  rw [V2LocalNetwork.allocateGenesisValue]
  cases found : net.participants.get? address with
  | none => exact sound
  | some participant =>
      have credited := sound.perform found (.addGenesisValue value recordId) trivial
        (fun header => by simp)
      have wallet_eq : (participant.wallet.execute
          (participant.wallet.addGenesisValue value recordId)).2 =
            participant.wallet.perform (.addGenesisValue value recordId) :=
        (LocalWalletDB.execute_forget_snd (participant.wallet.addGenesisValue value recordId)).symm
      rw [← wallet_eq] at credited
      cases executed : participant.wallet.execute
          (participant.wallet.addGenesisValue value recordId) with
      | mk result wallet =>
          rw [executed] at credited
          cases result with
          | error message => simpa only [executed] using credited
          | ok record =>
              have works : net.storage (.ok ()) = .ok () := if_pos sound.storeOpen
              simp only [executed, works]
              exact ⟨sound.storeOpen, sound.node, credited.placed, credited.known⟩

theorem Sound.deliverTransferPackage (sound : net.Sound) (package : TransferPackage H)
    (recipient : Option Address) (trustedCheckpoints : List (Checkpoint H)) (recordId : String) :
    (net.deliverTransferPackage package recipient trustedCheckpoints recordId).2.Sound := by
  simp only [V2LocalNetwork.deliverTransferPackage]
  cases found : net.participants.get? (recipient.getD package.targetTx.recipientAddr) with
  | none => exact sound
  | some participant =>
      have received := fun context => sound.perform found
        (.receiveTransfer package context recordId) trivial (fun header => by simp)
      simp only [LocalWalletDB.perform, LocalWalletDB.plan,
        LocalWalletDB.execute_forget_snd] at received
      exact received _

theorem Sound.deliverPayment (sound : net.Sound) (sender : Address) (targetTx : OffChainTx)
    (targetValue : ValueRange) (recipient : Option Address)
    (trustedCheckpoints : List (Checkpoint H)) (recordId : String) :
    (net.deliverPayment sender targetTx targetValue recipient trustedCheckpoints
      recordId).2.Sound := by
  rw [V2LocalNetwork.deliverPayment]
  split
  · exact sound
  · split
    · exact sound
    · exact sound.deliverTransferPackage _ recipient trustedCheckpoints recordId

theorem Sound.syncReceipts (sound : net.Sound) (address : Address) :
    (net.syncReceipts address).2.Sound := by
  rw [V2LocalNetwork.syncReceipts]
  split
  · exact sound
  next participant found =>
    obtain ⟨log, logged⟩ := sound.node.logged
    obtain ⟨placed, same, _⟩ := LocalParticipant.placed_syncReceipts logged.toLogged
      sound.node.once (sound.placed address participant found).2
    exact sound.set found same placed

/-! ### Payments -/

section Paying

variable {call : PaymentCall}

theorem submitPayment_of_poor (found : net.participants.get? address = some participant)
    (fresh : participant.wallet.FreshIds call.recordIds)
    (poor : ∀ tx, ¬ participant.wallet.Pays participant.publicKeyPem call tx) :
    (net.submitPayment address call).2 = net := by
  rcases (net.accountNode participant).submitPayment_cases call rfl fresh with
    ⟨_, message, submitted⟩ | ⟨tx, pays, _⟩
  · have kept : net.participants.set address participant = net.participants :=
      (OrderedDict.set_eq_self_iff _ _ _).mpr found
    simp only [submitPayment, found, submitted]
    change { net with participants := net.participants.set address participant } = net
    rw [kept]
  · exact absurd pays (poor tx)

/-- A wallet that can pay stores its bundle, which the pool takes if it meets the pool's limits. -/
theorem Sound.submitPayment_cases (sound : net.Sound)
    (found : net.participants.get? address = some participant)
    (fresh : participant.wallet.FreshIds call.recordIds) {tx : OffChainTx}
    (pays : participant.wallet.Pays participant.publicKeyPem call tx) :
    ∃ context wallet, wallet.getPendingBundle context.seq = some context ∧
      context.seq = participant.wallet.nextSequence ∧ wallet.address = participant.wallet.address ∧
      ((¬ net.consensus.chain.WithinLimits ((net.accountNode participant).submissionOf call pays) ∧
          (net.submitPayment address call).2 = { net with
            participants := net.participants.set address
              { participant with wallet := wallet } }) ∨
        wallet.Placed (net.consensus.chain.withPending
          ((net.accountNode participant).submissionOf call pays)) ∧
        net.consensus.chain.submitBundle ((net.accountNode participant).submissionOf call pays) =
          .ok (net.consensus.chain.withPending
            ((net.accountNode participant).submissionOf call pays)) ∧
        (net.submitPayment address call).2 = { net with
          consensus := { net.consensus with
            chain := net.consensus.chain.withPending
              ((net.accountNode participant).submissionOf call pays) }
          participants := net.participants.set address
            { participant with wallet := wallet } }) := by
  obtain ⟨-, placed⟩ := sound.placed address participant found
  obtain ⟨slot, follows⟩ := placed.idle_of_free pays.free
  obtain ⟨context, wallet, executed, envelope, sidecar, seq, bundleHash, same, headers_eq⟩ :=
    pays.execute_eq net.chainId fresh
  have pending : wallet.getPendingBundle context.seq = some context := by
    rw [same.getPendingBundle_eq]
    exact (LocalWalletDB.getPendingBundle_withPendingBundle pays.free).mpr ⟨rfl, rfl⟩
  refine ⟨context, wallet, pending, seq, same.address, ?_⟩
  have admitted := fun next => net.consensus.chain.submitBundle_eq_ok_iff next
    (sealed_paymentSubmission pays net.chainId)
  have open_slot := follows.slotOpen pays.free slot net.chainId pays
  by_cases limits : net.consensus.chain.WithinLimits
      ((net.accountNode participant).submissionOf call pays)
  · have submitted : net.consensus.chain.submitBundle
        (participant.wallet.paymentSubmission participant.publicKeyPem net.chainId call tx
          pays.sender_eq) = .ok (net.consensus.chain.withPending
            ((net.accountNode participant).submissionOf call pays)) :=
      (admitted _).mpr ⟨⟨limits, open_slot⟩, rfl⟩
    refine .inr ⟨placed.submit pays net.chainId envelope sidecar seq bundleHash same headers_eq,
      submitted, ?_⟩
    simp only [submitPayment, found, V2AccountNode.submitPayment, accountNode, executed]
    simp only [submitted]
    rfl
  · refine .inl ⟨limits, ?_⟩
    cases submitted : net.consensus.chain.submitBundle
        (participant.wallet.paymentSubmission participant.publicKeyPem net.chainId call tx
          pays.sender_eq) with
    | ok next => exact absurd ((admitted next).mp submitted).1.toWithinLimits limits
    | error message =>
        simp only [submitPayment, found, V2AccountNode.submitPayment, accountNode, executed,
          submitted]
        rfl

theorem Sound.submitPayment (ideal : IdealAddrKeys H) (sound : net.Sound) (sender : Address)
    (call : PaymentCall) (allowed : net.Allowed (.submitPayment sender call))
    (keeps : net.Keeps (.submitPayment sender call)) : (net.submitPayment sender call).2.Sound := by
  cases found : net.participants.get? sender with
  | none =>
      simp only [V2LocalNetwork.submitPayment, found]
      exact sound
  | some participant =>
      have fresh := allowed participant found
      by_cases poor : ∀ tx, ¬ participant.wallet.Pays participant.publicKeyPem call tx
      · rw [submitPayment_of_poor found fresh poor]
        exact sound
      simp only [not_forall, not_not] at poor
      obtain ⟨tx, pays⟩ := poor
      obtain ⟨context, wallet, -, -, same, ⟨refused, _⟩ | ⟨placed, submitted, submitted_eq⟩⟩ :=
        sound.submitPayment_cases found fresh pays
      · exact absurd (keeps participant found tx pays) refused
      obtain ⟨address_eq, -⟩ := sound.placed sender participant found
      have ledger := ChainStateV2.sameLedger_submitBundle submitted
      have slot : ∀ other, other ≠ sender → (net.consensus.chain.withPending
          ((net.accountNode participant).submissionOf call pays)).bundlePool.pendingBySender.get?
            other = net.consensus.chain.bundlePool.pendingBySender.get? other := by
        intro other different
        refine OrderedDict.get?_set_of_ne _ ?_ _
        exact fun same_key => different (same_key.symm.trans address_eq)
      rw [submitted_eq]
      refine ⟨sound.storeOpen, sound.node.restore ledger
        (sound.node.storeSound.step ideal (.submitBundle submitted)), ?_, ?_⟩
      · intro other otherParticipant otherFound
        rw [OrderedDict.get?_set] at otherFound
        split at otherFound
        next same_key =>
          obtain rfl := Option.some.inj otherFound
          exact ⟨(same.trans address_eq).trans same_key, placed⟩
        next different =>
          obtain ⟨other_eq, otherPlaced⟩ := sound.placed other otherParticipant otherFound
          refine ⟨other_eq, otherPlaced.of_pool ?_⟩
          rw [other_eq]
          exact slot other fun same_key => different same_key.symm
      · intro other unknown
        rw [OrderedDict.get?_set] at unknown
        split at unknown
        next => cases unknown
        next different =>
          obtain ⟨head, empty⟩ := sound.known other unknown
          refine ⟨head, ?_⟩
          exact (slot other fun same_key => different same_key.symm).trans empty

/-- A refused bundle is lost. -/
theorem Sound.keeps_of_submitPayment (sound : net.Sound) {sender : Address}
    (allowed : net.Allowed (.submitPayment sender call))
    (goesOn : (net.submitPayment sender call).2.WalletsGoOn) :
    net.Keeps (.submitPayment sender call) := by
  intro participant found tx pays
  obtain ⟨context, wallet, pending, seq, same, ⟨refused, refused_eq⟩ | ⟨_, submitted, _⟩⟩ :=
    sound.submitPayment_cases found (allowed participant found) pays
  · rw [refused_eq] at goesOn
    have goesOn := goesOn sender { participant with wallet := wallet }
      (OrderedDict.get?_set_self _ _ _)
    obtain ⟨-, placed⟩ := sound.placed sender participant found
    obtain ⟨slot, follows⟩ := placed.idle_of_free pays.free
    obtain ⟨log, logged⟩ := sound.node.logged
    refine absurd goesOn (LocalWalletDB.not_goesOn_of_lost pending ?_ fun receipt _ cached => ?_)
    · rw [same, slot]
    · have seq_le := logged.seq_le_of_getReceipt sound.node.once cached
      have next_eq := follows.nextSequence_eq pays.free
      rw [same] at seq_le
      omega
  · exact (((net.consensus.chain.submitBundle_eq_ok_iff _
      (sealed_paymentSubmission pays net.chainId)).mp submitted).1).toWithinLimits

end Paying

/-! ### Blocks -/

section Producing

variable {request : BlockRequest}

/-- The chain after the block of a request. -/
def nextChain (net : V2LocalNetwork H) (request : BlockRequest) : ChainStateV2 H :=
  (net.consensus.chain.buildBlock request.timestamp request.proposerSig request.consensusExtra
    request.limit).2

/-- The block of a request. -/
def nextBlock (net : V2LocalNetwork H) (request : BlockRequest) : BlockV2 H :=
  net.consensus.chain.builtBlock request.timestamp request.proposerSig request.consensusExtra
    request.limit

theorem produceBlock_of_empty
    (empty : net.consensus.chain.bundlePool.snapshot request.limit = []) :
    (net.produceBlock request).2 = net := by
  simp only [produceBlock, NodeCall.extend, if_pos empty]

theorem produceBlock_of_failed
    (pending : net.consensus.chain.bundlePool.snapshot request.limit ≠ [])
    (failed : request.storage ≠ .ok ()) : (net.produceBlock request).2 = { net with
      consensus := { net.consensus with chain := net.nextChain request } } := by
  have built := (net.consensus.chain.buildBlock_eq request.timestamp request.proposerSig
    request.consensusExtra request.limit).1
  have raises : ∃ message, net.storage request.storage = .error message := by
    rw [storage]
    split
    · cases outcome : request.storage with
      | error message => exact ⟨message, rfl⟩
      | ok done => exact absurd outcome failed
    · exact ⟨_, rfl⟩
  obtain ⟨message, raised⟩ := raises
  simp only [produceBlock, NodeCall.extend, if_neg pending, built, ConsensusNode.saveOn, raised]
  rfl

theorem produceBlock_of_saved
    (pending : net.consensus.chain.bundlePool.snapshot request.limit ≠ [])
    {store : ConsensusStateStore H} (saved : net.consensus.saveOn (net.storage request.storage)
      (net.nextChain request) (net.nextBlock request)
      (net.consensus.chain.blockReceipts (net.nextBlock request)) = .ok store) :
    (net.produceBlock request).2 = { net with
      consensus := { net.consensus with chain := net.nextChain request, store := store }
      participants := (LocalParticipant.deliverReceipts
        (net.participants.mapValues fun participant =>
          participant.observeBlock (net.nextBlock request))
        (net.consensus.chain.blockReceipts (net.nextBlock request)).entries).2 } := by
  have built := (net.consensus.chain.buildBlock_eq request.timestamp request.proposerSig
    request.consensusExtra request.limit).1
  unfold nextBlock nextChain at saved
  simp only [produceBlock, NodeCall.extend, if_neg pending, built, saved]
  rfl

/-- A participant that saw the block and got its receipt stands next to the new chain. -/
theorem Sound.placed_informed (ideal : IdealHash H) (idealKeys : IdealAddrKeys H)
    (sound : net.Sound) (alive : ConsensusNode.PackedAlive net.consensus.chain request.limit)
    (keeps : net.KeepsReceipts) (found : net.participants.get? address = some participant) :
    let informed := LocalParticipant.informed (net.nextBlock request)
      (net.consensus.chain.blockReceipts (net.nextBlock request)) address participant
    informed.wallet.address = address ∧ informed.wallet.Placed (net.nextChain request) := by
  intro informed
  obtain ⟨log, logged⟩ := sound.node.logged
  obtain ⟨address_eq, placed⟩ := sound.placed address participant found
  have recent : ∀ receipt : Receipt H, participant.wallet.getPendingBundle receipt.seq ≠ none →
      net.consensus.chain.receiptCache.getReceipt participant.wallet.address receipt.seq =
        some receipt → net.consensus.chain.currentHeight + 1 <
          receipt.headerLite.height + max 1 net.receiptCacheBlocks := by
    intro receipt pending cached
    rw [address_eq] at cached
    have kept := keeps address participant found receipt pending cached
    rwa [logged.maxBlocks] at kept
  have shared : (participant.observeBlock (net.nextBlock request)).wallet.Placed
        (net.nextChain request) ∧
      ∀ receipt, (net.consensus.chain.blockReceipts (net.nextBlock request)).get?
          participant.wallet.address = some receipt →
        ∃ context, (participant.observeBlock (net.nextBlock request)).wallet.Awaits
          (net.nextChain request) receipt context :=
    placed.buildBlock ideal idealKeys (by omega) logged.toLogged sound.node.once
      sound.node.height_le alive recent
  obtain ⟨observed, awaited⟩ := shared
  unfold informed LocalParticipant.informed
  split
  · exact ⟨address_eq, observed⟩
  next receipt issued =>
    rw [← address_eq] at issued
    obtain ⟨context, awaits⟩ := awaited receipt issued
    rw [LocalParticipant.delivered]
    split
    · rw [LocalParticipant.applyReceipt_eq awaits observed]
      exact ⟨address_eq, awaits.placed_afterReceipt observed⟩
    · exact ⟨address_eq, observed⟩

theorem Sound.produceBlock (ideal : IdealHash H) (idealKeys : IdealAddrKeys H)
    (sound : net.Sound) (allowed : net.Allowed (.produceBlock request))
    (keeps : net.Keeps (.produceBlock request)) : (net.produceBlock request).2.Sound := by
  by_cases empty : net.consensus.chain.bundlePool.snapshot request.limit = []
  · rw [produceBlock_of_empty empty]
    exact sound
  obtain ⟨works, keepsReceipts⟩ := keeps empty
  have storage_eq : net.storage request.storage = .ok () := by
    rw [storage, if_pos sound.storeOpen, works]
  obtain ⟨store, saved⟩ := sound.node.exists_save ideal request
  have node := sound.node.produce ideal idealKeys empty allowed saved
  rw [← storage_eq] at saved
  rw [produceBlock_of_saved empty saved]
  refine ⟨sound.storeOpen, node, ?_, ?_⟩
  · intro address participant found
    rw [LocalParticipant.get?_informed, Option.map_eq_some_iff] at found
    obtain ⟨earlier, earlier_found, rfl⟩ := found
    exact sound.placed_informed ideal idealKeys allowed keepsReceipts earlier_found
  · intro address absent
    rw [LocalParticipant.get?_informed, Option.map_eq_none_iff] at absent
    obtain ⟨head, slot⟩ := sound.known address absent
    have others : ∀ submission ∈ net.consensus.chain.bundlePool.snapshot request.limit,
        submission.sidecar.senderAddr ≠ address := by
      rintro submission packed rfl
      rw [sound.node.storeSound.wellFormed.get?_sender (mem_pending_iff.mpr (mem_snapshot packed))]
        at slot
      cases slot
    have spares : Spares net.consensus.chain (net.nextChain request) (net.nextBlock request)
        address := spares_builtBlock others
    exact ⟨spares.head.trans head, spares.slot.trans slot⟩

/-- The owner of a slot has a wallet, whose pending bundle is the one in the slot. -/
theorem Sound.exists_pooled (sound : net.Sound) {submission : BundleSubmission H}
    (slot : net.consensus.chain.bundlePool.pendingBySender.get? address = some submission) :
    ∃ participant context, net.participants.get? address = some participant ∧
      participant.wallet.address = address ∧ participant.wallet.Placed net.consensus.chain ∧
        participant.wallet.Pooled net.consensus.chain submission context := by
  cases found : net.participants.get? address with
  | none =>
      have empty := (sound.known address found).2
      rw [slot] at empty
      cases empty
  | some participant =>
      obtain ⟨address_eq, placed⟩ := sound.placed address participant found
      refine ⟨participant, ?_⟩
      rw [← address_eq] at slot
      cases placed.stands with
      | idle _ empty _ =>
          rw [slot] at empty
          cases empty
      | confirmed _ _ _ awaits =>
          have empty := awaits.slot
          rw [slot] at empty
          cases empty
      | pooled other context pooled =>
          obtain rfl := Option.some.inj (slot.symm.trans pooled.slot)
          exact ⟨context, rfl, address_eq, placed, pooled⟩

/-- The packed bundle of a block that was not saved is lost: no wallet knows its header. -/
theorem Sound.storage_of_goesOn (ideal : IdealHash H) (sound : net.Sound)
    (pending : net.consensus.chain.bundlePool.snapshot request.limit ≠ [])
    (goesOn : (net.produceBlock request).2.WalletsGoOn) : request.storage = .ok () := by
  by_contra failed
  rw [produceBlock_of_failed pending failed] at goesOn
  obtain ⟨submission, packed⟩ := List.exists_mem_of_ne_nil _ pending
  obtain ⟨log, logged⟩ := sound.node.logged
  have slot := logged.wellFormed.get?_sender (mem_pending_iff.mpr (mem_snapshot packed))
  obtain ⟨participant, context, found, address_eq, placed, pooled⟩ := sound.exists_pooled slot
  have packs : Packs net.consensus.chain (net.nextChain request) (net.nextBlock request)
    submission := logged.wellFormed.packs_builtBlock packed
  have cached : (net.nextChain request).receiptCache.getReceipt submission.sidecar.senderAddr
      submission.envelope.seq =
        some (net.consensus.chain.packedReceipt (net.nextBlock request) submission) :=
    logged.getReceipt_packed ideal (by omega) sound.node.once packed
  refine LocalWalletDB.not_goesOn_of_lost pooled.pending ?_ ?_
    (goesOn submission.sidecar.senderAddr participant found)
  · rw [address_eq]
    exact packs.slot
  · intro receipt unit kept applied
    rw [address_eq, pooled.seq, cached, Option.some.injEq] at kept
    rw [← kept] at applied
    obtain ⟨_, checked, _⟩ := LocalWalletDB.execute_onReceiptConfirmed_eq_ok.mp applied
    have known := of_decide_eq_true checked.known
    have height_le := placed.bounded _ _ known
    have height_eq : (net.consensus.chain.packedReceipt (net.nextBlock request)
      submission).headerLite.height = net.consensus.chain.currentHeight + 1 := rfl
    omega

/-- A block that pushes a receipt out of the cache loses the bundle that waits for it. -/
theorem Sound.keepsReceipts_of_goesOn (ideal : IdealHash H) (sound : net.Sound)
    (pending : net.consensus.chain.bundlePool.snapshot request.limit ≠ [])
    (goesOn : (net.produceBlock request).2.WalletsGoOn) : net.KeepsReceipts := by
  have works := sound.storage_of_goesOn ideal pending goesOn
  intro address participant found receipt stored cached
  by_contra old
  obtain ⟨log, logged⟩ := sound.node.logged
  obtain ⟨address_eq, placed⟩ := sound.placed address participant found
  obtain ⟨context, waiting⟩ := Option.ne_none_iff_exists'.mp stored
  have slot : net.consensus.chain.bundlePool.pendingBySender.get? address = none := by
    rw [← address_eq]
    cases placed.stands with
    | idle _ empty _ => exact empty
    | confirmed _ _ _ awaits => exact awaits.slot
    | pooled submission other pooled =>
        have uncached := pooled.uncached logged.toLogged sound.node.once
        rw [address_eq, ← placed.one _ _ _ _ waiting pooled.pending, cached] at uncached
        cases uncached
  have spares : Spares net.consensus.chain (net.nextChain request) (net.nextBlock request)
      address := by
    apply spares_builtBlock
    rintro submission packed rfl
    rw [logged.wellFormed.get?_sender (mem_pending_iff.mpr (mem_snapshot packed))] at slot
    cases slot
  have forgotten : (net.nextChain request).receiptCache.getReceipt address receipt.seq = none := by
    apply logged.getReceipt_forgotten ideal (by omega) sound.node.once pending cached
    rw [← logged.maxBlocks]
    exact not_lt.mp old
  obtain ⟨store, saved⟩ := sound.node.exists_save ideal request
  have storage_eq : net.storage request.storage = .ok () := by
    rw [storage, if_pos sound.storeOpen, works]
  rw [← storage_eq] at saved
  rw [produceBlock_of_saved pending saved] at goesOn
  have informed_eq : LocalParticipant.informed (net.nextBlock request)
      (net.consensus.chain.blockReceipts (net.nextBlock request)) address participant =
        participant.observeBlock (net.nextBlock request) := by
    rw [LocalParticipant.informed, spares.receipt]
  have later := goesOn address (participant.observeBlock (net.nextBlock request)) (by
    rw [LocalParticipant.get?_informed, found, Option.map_some, informed_eq])
  have same : participant.wallet.SameBundles
    (participant.observeBlock (net.nextBlock request)).wallet := .perform trivial
  have pending_later := (same.getPendingBundle_eq receipt.seq).trans waiting
  refine LocalWalletDB.not_goesOn_of_lost pending_later ?_ ?_ later
  · rw [same.address, address_eq]
    exact spares.slot.trans slot
  · intro other unit kept
    rw [same.address, address_eq, forgotten] at kept
    cases kept

end Producing

/-! ### Restarts -/

theorem Sound.exists_loaded (ideal : IdealAddrKeys H) (sound : net.Sound) :
    ∃ chain, chain.SameLedger net.consensus.chain ∧
      (∀ address, chain.bundlePool.pendingBySender.get? address = none) ∧
      let consensus : ConsensusNode H := { net.consensus with
        chain := chain
        genesisBlockHash := (net.consensus.store.metadata.map
          ConsensusStateMetadata.genesisBlockHash).getD net.genesisBlockHash }
      consensus.Sound net.chainId net.receiptCacheBlocks net.genesisBlockHash ∧
      net.restartConsensus.2 = { net with
        consensus := consensus
        storeOpen := true
        genesisAllocations := (net.participants.values.map LocalParticipant.wallet).foldl
          ingestWalletGenesisAllocations net.savedAllocations
        participants := net.participants.mapValues fun participant =>
          participant.register chain net.autoConfirmRegisteredWallets } := by
  obtain ⟨chain, loaded, ledger, _⟩ := sound.node.storeSound.load
  refine ⟨chain, ledger, ConsensusNode.slot_of_loaded loaded,
    sound.node.restore ledger (sound.node.storeSound.step ideal (.restart loaded)), ?_⟩
  simp only [restartConsensus, loaded]

theorem Sound.restartConsensus (ideal : IdealAddrKeys H) (sound : net.Sound)
    (keeps : net.Keeps .restartConsensus) : net.restartConsensus.2.Sound := by
  obtain ⟨chain, ledger, empty, node, restarted⟩ := sound.exists_loaded ideal
  obtain ⟨pool, rfl⟩ := ledger
  have same_slot : ∀ address, pool.pendingBySender.get? address =
      net.consensus.chain.bundlePool.pendingBySender.get? address := by
    intro address
    have absent : net.consensus.chain.bundlePool.pendingBySender.get? address = none := by
      rw [OrderedDict.get?_eq_none_iff, keeps]
      exact List.not_mem_nil
    exact (empty address).trans absent.symm
  rw [restarted]
  refine ⟨rfl, node, ?_, ?_⟩
  · intro address participant found
    rw [OrderedDict.get?_mapValues, Option.map_eq_some_iff] at found
    obtain ⟨earlier, earlier_found, rfl⟩ := found
    obtain ⟨address_eq, placed⟩ := sound.placed address earlier earlier_found
    have placed := placed.of_pool (same_slot earlier.wallet.address)
    refine ⟨?_, LocalParticipant.placed_register node.heights_nodup node.height_le placed.one
      placed.bounded placed.stands _⟩
    rw [LocalParticipant.register_eq]
    exact address_eq
  · intro address absent
    rw [OrderedDict.get?_mapValues, Option.map_eq_none_iff] at absent
    exact ⟨(sound.known address absent).1, empty address⟩

/-- A restart loses the bundles in the pool. -/
theorem Sound.keeps_of_restart (ideal : IdealAddrKeys H) (sound : net.Sound)
    (goesOn : net.restartConsensus.2.WalletsGoOn) : net.Keeps .restartConsensus := by
  refine List.eq_nil_iff_forall_not_mem.mpr fun address listed => ?_
  obtain ⟨submission, slot⟩ := Option.ne_none_iff_exists'.mp fun absent =>
    (OrderedDict.get?_eq_none_iff _ _).mp absent listed
  obtain ⟨chain, ledger, empty, _, restarted⟩ := sound.exists_loaded ideal
  obtain ⟨participant, context, found, address_eq, placed, pooled⟩ := sound.exists_pooled slot
  obtain ⟨pool, rfl⟩ := ledger
  obtain ⟨log, logged⟩ := sound.node.logged
  have uncached := pooled.uncached logged.toLogged sound.node.once
  rw [restarted] at goesOn
  have later := goesOn address _ (by rw [OrderedDict.get?_mapValues, found, Option.map_some])
  have registered := participant.register_eq { net.consensus.chain with bundlePool := pool }
    net.autoConfirmRegisteredWallets
  have address_kept := congrArg (fun other => other.wallet.address) registered
  have pending : (participant.register { net.consensus.chain with bundlePool := pool }
      net.autoConfirmRegisteredWallets).wallet.getPendingBundle context.seq = some context := by
    rw [registered]
    exact pooled.pending
  refine LocalWalletDB.not_goesOn_of_lost pending (empty _) (fun receipt unit cached => ?_) later
  simp only at address_kept
  rw [address_kept] at cached
  rw [cached] at uncached
  cases uncached

/-! ### Runs -/

/-- Every call that leaves no bundle behind keeps the network sound. -/
theorem Sound.step (ideal : IdealHash H) (idealKeys : IdealAddrKeys H) (sound : net.Sound)
    {event : LocalEvent H} (allowed : net.Allowed event) (keeps : net.Keeps event) :
    (net.step event).Sound := by
  cases event with
  | addAccount publicKeyPem autoConfirmReceipts =>
      exact sound.addAccount publicKeyPem autoConfirmReceipts
  | allocateGenesisValue address value recordId =>
      exact sound.allocateGenesisValue address value recordId
  | submitPayment sender call => exact sound.submitPayment idealKeys sender call allowed keeps
  | produceBlock request => exact sound.produceBlock ideal idealKeys allowed keeps
  | deliverPayment sender targetTx targetValue recipient trustedCheckpoints recordId =>
      exact sound.deliverPayment sender targetTx targetValue recipient trustedCheckpoints recordId
  | syncReceipts address => exact sound.syncReceipts address
  | restartConsensus => exact sound.restartConsensus idealKeys keeps

theorem Sound.keeps_of_goesOn (ideal : IdealHash H) (idealKeys : IdealAddrKeys H)
    (sound : net.Sound) {event : LocalEvent H} (allowed : net.Allowed event)
    (goesOn : (net.step event).WalletsGoOn) : net.Keeps event := by
  cases event with
  | submitPayment sender call => exact sound.keeps_of_submitPayment allowed goesOn
  | produceBlock request =>
      intro pending
      exact ⟨sound.storage_of_goesOn ideal pending goesOn,
        sound.keepsReceipts_of_goesOn ideal pending goesOn⟩
  | restartConsensus => exact sound.keeps_of_restart idealKeys goesOn
  | addAccount | allocateGenesisValue | deliverPayment | syncReceipts => trivial

/-- In every run of a local network, all wallets can go on in all states exactly when the pool takes
every bundle that a wallet stores, every block is saved and forgets no receipt that a wallet waits
for, and every restart finds the pool empty. -/
theorem keeps_iff_walletsGoOn (ideal : IdealHash H) (idealKeys : IdealAddrKeys H)
    (chainId receiptCacheBlocks : ℕ) (genesisBlockHash : H) (autoConfirmRegisteredWallets : Bool)
    (events : List (LocalEvent H)) :
    let start := new chainId receiptCacheBlocks genesisBlockHash autoConfirmRegisteredWallets
    Along V2LocalNetwork.step Allowed start events →
      (Along V2LocalNetwork.step Keeps start events ↔ ∀ earlier, earlier <+: events →
        (earlier.foldl V2LocalNetwork.step start).WalletsGoOn) := by
  intro start allowed
  exact along_iff_always (fun _ _ sound allowed keeps => sound.step ideal idealKeys allowed keeps)
    (fun _ sound => sound.goesOn)
    (fun _ _ sound allowed goesOn => sound.keeps_of_goesOn ideal idealKeys allowed goesOn) allowed
    (sound_new chainId receiptCacheBlocks genesisBlockHash autoConfirmRegisteredWallets)

/-! ### Settling -/

/-- No bundle of the account is pending. -/
def Settled (net : V2LocalNetwork H) (address : Address) : Prop :=
  ∀ participant, net.participants.get? address = some participant →
    participant.wallet.pendingBundles.keys = []

/-- A synchronization with an empty pool settles its account, and no other account changes. -/
theorem Sound.settled_syncReceipts (sound : net.Sound)
    (empty : ∀ other, net.consensus.chain.bundlePool.pendingBySender.get? other = none)
    (address : Address) :
    let synced := (net.syncReceipts address).2
    synced.consensus = net.consensus ∧ synced.Settled address ∧
      (∀ other, address ≠ other → synced.participants.get? other = net.participants.get? other) ∧
        ∀ other, synced.participants.get? other = none → net.participants.get? other = none := by
  intro synced
  cases found : net.participants.get? address with
  | none =>
      have synced_eq : synced = net := by
        simp only [synced, V2LocalNetwork.syncReceipts, found]
      rw [synced_eq]
      refine ⟨rfl, fun participant same => ?_, fun _ _ => rfl, fun _ absent => absent⟩
      rw [found] at same
      cases same
  | some participant =>
      have synced_eq : synced = { net with
          participants := net.participants.set address
            (participant.syncReceipts net.consensus.chain) } := by
        simp only [synced, V2LocalNetwork.syncReceipts, found]
      obtain ⟨log, logged⟩ := sound.node.logged
      obtain ⟨-, -, settles⟩ := LocalParticipant.placed_syncReceipts logged.toLogged
        sound.node.once (sound.placed address participant found).2
      rw [synced_eq]
      refine ⟨rfl, fun after same => ?_, fun other different =>
        OrderedDict.get?_set_of_ne _ different _, fun other absent => ?_⟩
      · obtain rfl := Option.some.inj ((OrderedDict.get?_set_self _ _ _).symm.trans same)
        exact settles (empty _)
      · rw [OrderedDict.get?_set] at absent
        split at absent
        · cases absent
        · exact absent

/-- One synchronization per account settles all of them. -/
theorem Sound.settled_syncs (sound : net.Sound)
    (empty : ∀ other, net.consensus.chain.bundlePool.pendingBySender.get? other = none)
    (addresses : List Address) :
    let synced := (addresses.map LocalEvent.syncReceipts).foldl V2LocalNetwork.step net
    synced.Sound ∧ synced.consensus = net.consensus ∧
      (∀ address, address ∈ addresses ∨ net.Settled address → synced.Settled address) ∧
        ∀ address, synced.participants.get? address = none →
          net.participants.get? address = none := by
  induction addresses generalizing net with
  | nil =>
      exact ⟨sound, rfl, fun address settled => settled.resolve_left List.not_mem_nil,
        fun _ absent => absent⟩
  | cons first rest induction =>
      obtain ⟨consensus_eq, settles, others, stay⟩ := sound.settled_syncReceipts empty first
      have later : (net.syncReceipts first).2.Sound := sound.syncReceipts first
      obtain ⟨sound_after, consensus_after, settled_after, stay_after⟩ := induction later (by
        rw [consensus_eq]
        exact empty)
      refine ⟨sound_after, consensus_after.trans consensus_eq, fun address settled => ?_,
        fun address absent => stay address (stay_after address absent)⟩
      by_cases same : first = address
      · rw [← same]
        exact settled_after first (.inr settles)
      apply settled_after address
      rcases settled with listed | settled
      · exact .inl ((List.mem_cons.mp listed).resolve_left fun eq => same eq.symm)
      · refine .inr fun participant found => settled participant ?_
        rw [← others address same, found]

/-- A block without a limit empties the pool, and confirms every pending bundle that was not
confirmed before. -/
theorem Sound.confirmed_by_block (ideal : IdealHash H) (sound : net.Sound) {request : BlockRequest}
    (keeps : net.Keeps (.produceBlock request)) (unlimited : request.limit = none) :
    let next := (net.produceBlock request).2.consensus.chain
    (∀ address, next.bundlePool.pendingBySender.get? address = none) ∧
      ∀ address participant, net.participants.get? address = some participant →
        ∀ seq ∈ participant.wallet.pendingBundles.keys,
          0 < seq ∧ next.confirmedSeq address = seq := by
  intro next
  have wellFormed := sound.node.storeSound.wellFormed
  have packed_of_slot : ∀ address submission,
      net.consensus.chain.bundlePool.pendingBySender.get? address = some submission →
        submission ∈ net.consensus.chain.bundlePool.snapshot request.limit ∧
          submission.sidecar.senderAddr = address := by
    intro address submission slot
    rw [unlimited]
    exact ⟨mem_snapshot_none slot, (wellFormed.pool address submission slot).1⟩
  -- With an empty pool the chain stays as it is.
  have chain_cases :
      (∀ address, net.consensus.chain.bundlePool.pendingBySender.get? address = none) ∧
        next = net.consensus.chain ∨ next = net.nextChain request := by
    by_cases empty : net.consensus.chain.bundlePool.snapshot request.limit = []
    · refine .inl ⟨fun address => ?_, ?_⟩
      · refine Option.eq_none_iff_forall_ne_some.mpr fun submission slot => ?_
        have packed := (packed_of_slot address submission slot).1
        rw [empty] at packed
        cases packed
      · exact congrArg (fun net => net.consensus.chain) (produceBlock_of_empty empty)
    · obtain ⟨works, _⟩ := keeps empty
      obtain ⟨store, saved⟩ := sound.node.exists_save ideal request
      have storage_eq : net.storage request.storage = .ok () := by
        rw [storage, if_pos sound.storeOpen, works]
      rw [← storage_eq] at saved
      exact .inr (congrArg (fun net => net.consensus.chain) (produceBlock_of_saved empty saved))
  have outcome : ∀ address,
      (∃ submission, net.consensus.chain.bundlePool.pendingBySender.get? address =
          some submission ∧ next.confirmedSeq address = submission.envelope.seq ∧
            next.bundlePool.pendingBySender.get? address = none) ∨
        net.consensus.chain.bundlePool.pendingBySender.get? address = none ∧
          next.confirmedSeq address = net.consensus.chain.confirmedSeq address ∧
            next.bundlePool.pendingBySender.get? address = none := by
    intro address
    rcases chain_cases with ⟨empty, same⟩ | built
    · rw [same]
      exact .inr ⟨empty address, rfl, empty address⟩
    rw [built]
    cases slot : net.consensus.chain.bundlePool.pendingBySender.get? address with
    | some submission =>
        obtain ⟨packed, rfl⟩ := packed_of_slot address submission slot
        have packs : Packs net.consensus.chain (net.nextChain request) (net.nextBlock request)
          submission := wellFormed.packs_builtBlock packed
        exact .inl ⟨submission, rfl, packs.confirmedSeq, packs.slot⟩
    | none =>
        have spares : Spares net.consensus.chain (net.nextChain request) (net.nextBlock request)
            address := by
          apply spares_builtBlock
          rintro submission packed rfl
          rw [wellFormed.get?_sender (mem_pending_iff.mpr (mem_snapshot packed))] at slot
          cases slot
        exact .inr ⟨rfl, spares.confirmedSeq, spares.slot.trans slot⟩
  refine ⟨fun address => ?_, fun address participant found seq listed => ?_⟩
  · rcases outcome address with ⟨_, _, _, empty⟩ | ⟨_, _, empty⟩ <;> exact empty
  obtain ⟨address_eq, placed⟩ := sound.placed address participant found
  cases placed.stands with
  | idle free _ _ =>
      rw [free] at listed
      cases listed
  | pooled submission context pooled =>
      rw [placed.one.keys_eq pooled.pending, List.mem_singleton] at listed
      have slot := pooled.slot
      rw [address_eq] at slot
      rcases outcome address with ⟨other, other_slot, confirmed, _⟩ | ⟨empty, _⟩
      · obtain rfl := Option.some.inj (slot.symm.trans other_slot)
        have next_eq := pooled.next
        rw [confirmed, listed, ← pooled.seq]
        exact ⟨by omega, rfl⟩
      · rw [slot] at empty
        cases empty
  | confirmed receipt context _ awaits =>
      rw [placed.one.keys_eq awaits.pending, List.mem_singleton] at listed
      have slot := awaits.slot
      have head := awaits.head
      rw [address_eq] at slot head
      rcases outcome address with ⟨other, other_slot, _⟩ | ⟨_, same, _⟩
      · rw [slot] at other_slot
        cases other_slot
      · have next_eq := awaits.next
        rw [same, ChainStateV2.confirmedSeq, head, listed]
        exact ⟨by omega, rfl⟩

theorem stay_produceBlock {request : BlockRequest}
    (absent : (net.produceBlock request).2.participants.get? address = none) :
    net.participants.get? address = none := by
  simp only [V2LocalNetwork.produceBlock] at absent
  split at absent
  · exact absent
  · split at absent
    · exact absent
    · rwa [LocalParticipant.get?_informed, Option.map_eq_none_iff] at absent

/-- In a run that left no bundle behind, a block without a limit and one synchronization per account
settle everything: no bundle is pending, and every bundle that was is the last one that the chain
confirmed for its account and has its unit in the wallet. -/
theorem settled_by_block (ideal : IdealHash H) (idealKeys : IdealAddrKeys H)
    (chainId receiptCacheBlocks : ℕ) (genesisBlockHash : H) (autoConfirmRegisteredWallets : Bool)
    (events : List (LocalEvent H)) (request : BlockRequest) (unlimited : request.limit = none) :
    let start := new chainId receiptCacheBlocks genesisBlockHash autoConfirmRegisteredWallets
    let net := events.foldl V2LocalNetwork.step start
    let settled := (net.participants.keys.map LocalEvent.syncReceipts).foldl V2LocalNetwork.step
      (net.step (.produceBlock request))
    Along V2LocalNetwork.step Allowed start (events ++ [.produceBlock request]) →
      Along V2LocalNetwork.step Keeps start (events ++ [.produceBlock request]) →
        ∀ address before, net.participants.get? address = some before →
          ∃ after, settled.participants.get? address = some after ∧
            after.wallet.pendingBundles.keys = [] ∧
              ∀ seq ∈ before.wallet.pendingBundles.keys,
                settled.consensus.chain.confirmedSeq address = seq ∧
                  ∃ unit, after.wallet.getConfirmedUnit seq = some unit := by
  intro start net settled allowed keeps address before found
  obtain ⟨allowed_before, allowed_block, _⟩ := along_append.mp allowed
  obtain ⟨keeps_before, keeps_block, _⟩ := along_append.mp keeps
  have sound : net.Sound := (allowed_before.and keeps_before).invariant
    (fun _ _ sound conditions => sound.step ideal idealKeys conditions.1 conditions.2)
    (sound_new chainId receiptCacheBlocks genesisBlockHash autoConfirmRegisteredWallets)
  have produced : (net.produceBlock request).2.Sound :=
    sound.produceBlock ideal idealKeys allowed_block keeps_block
  obtain ⟨empty, confirmed⟩ := sound.confirmed_by_block ideal keeps_block unlimited
  obtain ⟨sound_after, consensus_eq, settles, stay⟩ :=
    produced.settled_syncs empty net.participants.keys
  have sound_after : settled.Sound := sound_after
  have consensus_eq : settled.consensus = (net.produceBlock request).2.consensus := consensus_eq
  obtain ⟨after, after_found⟩ : ∃ after, settled.participants.get? address = some after := by
    refine Option.ne_none_iff_exists'.mp fun absent => ?_
    have earlier := stay_produceBlock (stay address absent)
    rw [found] at earlier
    cases earlier
  have listed : address ∈ net.participants.keys := by
    by_contra absent
    rw [(OrderedDict.get?_eq_none_iff _ _).mpr absent] at found
    cases found
  have free : after.wallet.pendingBundles.keys = [] :=
    settles address (.inl listed) after after_found
  refine ⟨after, after_found, free, fun seq pending => ?_⟩
  obtain ⟨positive, confirmed⟩ := confirmed address before found seq pending
  rw [← consensus_eq] at confirmed
  refine ⟨confirmed, ?_⟩
  obtain ⟨address_eq, placed⟩ := sound_after.placed address after after_found
  obtain ⟨-, follows⟩ := placed.idle_of_free free
  have next_eq := follows.nextSequence_eq free
  rw [LocalWalletDB.nextSequence_of_none (LocalWalletDB.getPendingBundle_of_free free),
    address_eq, confirmed, Nat.add_right_cancel_iff] at next_eq
  have last := follows.last
  have head_seq := follows.seq
  rw [next_eq] at last head_seq
  cases stored : after.wallet.getConfirmedUnit seq with
  | some unit => exact ⟨unit, rfl⟩
  | none =>
      rw [stored] at last
      rw [← last] at head_seq
      exact absurd head_seq.symm positive.ne'

end V2LocalNetwork

section Samples

open SymbolicDigest

/-- The network that Alice has joined as the owner of one atom. -/
def aliceNetwork : V2LocalNetwork SymbolicDigest :=
  ((V2LocalNetwork.new 1 32 (filled 0) false).step (.addAccount [1] none)).step
    (.allocateGenesisValue alice (fragment 0).value (LocalWalletDB.unaryIds 0))

/-- Alice joins a network, owns an atom, and pays it to Bob. -/
def payingRun : List (LocalEvent SymbolicDigest) :=
  [.addAccount [1] none,
    .allocateGenesisValue alice (fragment 0).value (LocalWalletDB.unaryIds 0),
    .submitPayment alice (payAll 1)]

theorem atomTransfer_ne_nil : [(fragment 0).value] ≠ [] := List.cons_ne_nil _ _

theorem atomTransfer_sorted :
    [(fragment 0).value].Pairwise fun left right => left.valueEnd < right.valueBegin :=
  List.pairwise_singleton _ _

/-- The transfer of Alice's atom. -/
def atomTransfer : OffChainTx where
  senderAddr := alice
  recipientAddr := bob
  valueList := [(fragment 0).value]
  txLocalIndex := 0
  txTime := 0
  extraData := []
  valueList_ne_nil := atomTransfer_ne_nil
  valueList_sorted := atomTransfer_sorted

/-- Alice in her network. -/
def aliceParticipant : LocalParticipant SymbolicDigest := ⟨fragmentedWallet 1, [1], false⟩

theorem get?_aliceNetwork : aliceNetwork.participants.get? alice = some aliceParticipant := rfl

theorem sound_aliceNetwork : aliceNetwork.Sound :=
  ((V2LocalNetwork.sound_new 1 32 (filled 0) false).addAccount [1] none).allocateGenesisValue
    alice (fragment 0).value (LocalWalletDB.unaryIds 0)

theorem pays_atomTransfer :
    aliceParticipant.wallet.Pays aliceParticipant.publicKeyPem (payAll 1) atomTransfer :=
  ⟨Int.one_pos, rfl, rfl, rfl, rfl⟩

theorem withinLimits_atomTransfer : aliceNetwork.consensus.chain.WithinLimits
    ((aliceNetwork.accountNode aliceParticipant).submissionOf (payAll 1) pays_atomTransfer) :=
  ⟨rfl, Nat.zero_le _, rfl, by decide, by decide, by decide⟩

theorem allowed_payingRun : Along V2LocalNetwork.step V2LocalNetwork.Allowed
    (.new 1 32 (filled 0) false) payingRun := by
  refine ⟨trivial, trivial, fun participant found => ?_, trivial⟩
  obtain rfl := Option.some.inj (get?_aliceNetwork.symm.trans found)
  exact freshIds_fragmentedWallet 1

theorem chain_payingRun :
    (aliceNetwork.submitPayment alice (payAll 1)).2.consensus.chain =
      aliceNetwork.consensus.chain.withPending
        ((aliceNetwork.accountNode aliceParticipant).submissionOf (payAll 1)
          pays_atomTransfer) := by
  obtain ⟨_, _, _, _, _, ⟨refused, _⟩ | ⟨_, _, submitted⟩⟩ :=
    sound_aliceNetwork.submitPayment_cases get?_aliceNetwork (freshIds_fragmentedWallet 1)
      pays_atomTransfer
  · exact absurd withinLimits_atomTransfer refused
  · rw [submitted]

/-- A block request without a limit. -/
def openRequest : BlockRequest := ⟨.ok (), 0, [], [], none⟩

theorem allowed_block_payingRun : Along V2LocalNetwork.step V2LocalNetwork.Allowed
    (.new 1 32 (filled 0) false) (payingRun ++ [.produceBlock openRequest]) := by
  refine along_append.mpr ⟨allowed_payingRun, ?_, trivial⟩
  change ConsensusNode.PackedAlive
    (aliceNetwork.submitPayment alice (payAll 1)).2.consensus.chain none
  rw [chain_payingRun]
  intro submission packed
  obtain ⟨key, found⟩ := mem_snapshot packed
  rw [withPending, OrderedDict.get?_set] at found
  split at found
  · rw [← Option.some.inj found]
    exact (by decide : 1 ≤ 100)
  · cases found

theorem keeps_block_payingRun : Along V2LocalNetwork.step V2LocalNetwork.Keeps
    (.new 1 32 (filled 0) false) (payingRun ++ [.produceBlock openRequest]) := by
  refine along_append.mpr ⟨⟨trivial, trivial, ?_, trivial⟩, ?_, trivial⟩
  · intro participant found tx pays
    obtain rfl := Option.some.inj (get?_aliceNetwork.symm.trans found)
    obtain rfl := pays_atomTransfer.unique pays
    exact withinLimits_atomTransfer
  · refine fun _ => ⟨rfl, fun address participant _ receipt _ cached => ?_⟩
    change (aliceNetwork.submitPayment alice (payAll 1)).2.consensus.chain.receiptCache.getReceipt
      address receipt.seq = some receipt at cached
    rw [chain_payingRun] at cached
    cases cached

/-- The run goes on in a restart of the node. -/
theorem keeps_restart_payingRun_iff :
    Along V2LocalNetwork.step V2LocalNetwork.Keeps (.new 1 32 (filled 0) false)
        (payingRun ++ [.restartConsensus]) ↔
      ∀ earlier, earlier <+: payingRun ++ [.restartConsensus] →
        (earlier.foldl V2LocalNetwork.step (.new 1 32 (filled 0) false)).WalletsGoOn :=
  V2LocalNetwork.keeps_iff_walletsGoOn idealHash idealAddrKeys 1 32 (filled 0) false _
    (along_append.mpr ⟨allowed_payingRun, trivial, trivial⟩)

/-- The run goes on in a block, which settles Alice's bundle. -/
theorem settled_block_payingRun :
    let net := payingRun.foldl V2LocalNetwork.step (.new 1 32 (filled 0) false)
    let settled := (net.participants.keys.map LocalEvent.syncReceipts).foldl V2LocalNetwork.step
      (net.step (.produceBlock openRequest))
    ∀ address before, net.participants.get? address = some before →
      ∃ after, settled.participants.get? address = some after ∧
        after.wallet.pendingBundles.keys = [] ∧
          ∀ seq ∈ before.wallet.pendingBundles.keys,
            settled.consensus.chain.confirmedSeq address = seq ∧
              ∃ unit, after.wallet.getConfirmedUnit seq = some unit :=
  V2LocalNetwork.settled_by_block idealHash idealAddrKeys 1 32 (filled 0) false payingRun
    openRequest rfl allowed_block_payingRun keeps_block_payingRun

end Samples

end EZChain
