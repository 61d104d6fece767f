import EZChain.Host.LocalNetwork
import EZChain.Host.Settlement

/-!
# Wallets next to the local chain

The pending bundle of a wallet is either in the pool, at the seq after the wallet's last one, or a
block has confirmed it and its receipt is still cached.  A wallet without a pending bundle has
settled everything that the chain confirmed.
-/

namespace EZChain

open Checks ChainStateV2

variable {H : Type} [Crypto H] [DecidableEq H]

namespace LocalWalletDB

/-! ## Where a wallet stands -/

/-- The chain has confirmed the pending bundle with this receipt, and the wallet will apply it. -/
structure Awaits (db : LocalWalletDB H) (chain : ChainStateV2 H) (receipt : Receipt H)
    (context : PendingBundleContext H) : Prop where
  pending : db.getPendingBundle receipt.seq = some context
  sender : context.sidecar.senderAddr = db.address
  next : receipt.seq = db.receivedSeq + 1
  prev : db.Follows receipt.prevRef
  stateProof : ∃ proof, receipt.accountStateProof = some proof ∧
    verifyProof receipt.headerLite.stateRoot (computeAddrKey H db.address).bytes
      (hashAccountLeaf (reconstructedLeaf ⟨receipt, context.sidecar⟩)) proof 256 = true
  header : ∃ block ∈ chain.blocks, receipt.headerLite = block.headerLite
  head : chain.headRefOf db.address = some (confirmedRef (confirmedUnit receipt context))
  slot : chain.bundlePool.pendingBySender.get? db.address = none

/-- The pending bundle is the one in the pool. -/
structure Pooled (db : LocalWalletDB H) (chain : ChainStateV2 H)
    (submission : BundleSubmission H) (context : PendingBundleContext H) : Prop where
  pending : db.getPendingBundle context.seq = some context
  slot : chain.bundlePool.pendingBySender.get? db.address = some submission
  envelope : context.envelope = submission.envelope
  sidecar : context.sidecar = submission.sidecar
  seq : context.seq = submission.envelope.seq
  bundleHash : context.bundleHash = submission.envelope.bundleHash
  next : context.seq = db.receivedSeq + 1
  follows : db.Follows (chain.headRefOf db.address)

/-- What the wallet's pending bundle is waiting for. -/
inductive Stands (db : LocalWalletDB H) (chain : ChainStateV2 H) : Prop where
  | idle (free : db.pendingBundles.keys = [])
      (slot : chain.bundlePool.pendingBySender.get? db.address = none)
      (follows : db.Follows (chain.headRefOf db.address))
  | pooled (submission : BundleSubmission H) (context : PendingBundleContext H)
      (pooled : db.Pooled chain submission context)
  | confirmed (receipt : Receipt H) (context : PendingBundleContext H)
      (cached : chain.receiptCache.getReceipt db.address receipt.seq = some receipt)
      (awaits : db.Awaits chain receipt context)

/-- The wallet knows the headers of the chain, and none above, and stands next to it. -/
structure Placed (db : LocalWalletDB H) (chain : ChainStateV2 H) : Prop where
  one : db.OnePending
  headers : ∀ block ∈ chain.blocks,
    db.canonicalHeaders.get? block.header.height = some block.headerLite
  bounded : ∀ height header, db.canonicalHeaders.get? height = some header →
    height ≤ chain.currentHeight
  stands : db.Stands chain

/-- An account has the same head and slot in a chain that goes on from another one. -/
structure SameView (chain other : ChainStateV2 H) (addr : Address) : Prop where
  blocks : chain.blocks ⊆ other.blocks
  head : other.headRefOf addr = chain.headRefOf addr
  slot : other.bundlePool.pendingBySender.get? addr =
    chain.bundlePool.pendingBySender.get? addr

/-- The cached receipts that the wallet may wait for stay cached. -/
def StayCached (db : LocalWalletDB H) (chain next : ChainStateV2 H) : Prop :=
  ∀ receipt : Receipt H, db.getPendingBundle receipt.seq ≠ none →
    chain.receiptCache.getReceipt db.address receipt.seq = some receipt →
      next.receiptCache.getReceipt db.address receipt.seq = some receipt

variable {db other : LocalWalletDB H} {chain next : ChainStateV2 H}

omit [Crypto H] [DecidableEq H] in
theorem SameView.refl (chain : ChainStateV2 H) (addr : Address) : SameView chain chain addr :=
  ⟨List.Subset.refl _, rfl, rfl⟩

theorem Awaits.transfer {receipt : Receipt H} {context : PendingBundleContext H}
    (awaits : db.Awaits chain receipt context) (same : db.SameBundles other)
    (view : SameView chain next db.address) : other.Awaits next receipt context where
  pending := by rw [same.getPendingBundle_eq, awaits.pending]
  sender := awaits.sender.trans same.address.symm
  next := by rw [same.receivedSeq_eq, awaits.next]
  prev := awaits.prev.of_sameBundles same
  stateProof := by
    rw [same.address]
    exact awaits.stateProof
  header := by
    obtain ⟨block, block_mem, header_eq⟩ := awaits.header
    exact ⟨block, view.blocks block_mem, header_eq⟩
  head := by rw [same.address, view.head, awaits.head]
  slot := by rw [same.address, view.slot, awaits.slot]

omit [DecidableEq H] in
theorem Pooled.transfer {submission : BundleSubmission H} {context : PendingBundleContext H}
    (pooled : db.Pooled chain submission context) (same : db.SameBundles other)
    (view : SameView chain next db.address) : other.Pooled next submission context where
  pending := by rw [same.getPendingBundle_eq, pooled.pending]
  slot := by rw [same.address, view.slot, pooled.slot]
  envelope := pooled.envelope
  sidecar := pooled.sidecar
  seq := pooled.seq
  bundleHash := pooled.bundleHash
  next := by rw [same.receivedSeq_eq, pooled.next]
  follows := by
    rw [same.address, view.head]
    exact pooled.follows.of_sameBundles same

/-- Neither changes of other tables nor changes for other accounts matter. -/
theorem Stands.transfer (stands : db.Stands chain) (same : db.SameBundles other)
    (view : SameView chain next db.address) (stay : db.StayCached chain next) :
    other.Stands next := by
  cases stands with
  | idle free slot follows =>
      refine .idle ?_ ?_ ?_
      · rw [same.pendingBundles, free]
      · rw [same.address, view.slot, slot]
      · rw [same.address, view.head]
        exact follows.of_sameBundles same
  | pooled submission context pooled =>
      exact .pooled submission context (pooled.transfer same view)
  | confirmed receipt context cached awaits =>
      refine .confirmed receipt context ?_ (awaits.transfer same view)
      rw [same.address]
      refine stay receipt ?_ cached
      rw [awaits.pending]
      exact Option.some_ne_none context

omit [Crypto H] [DecidableEq H] in
theorem OnePending.of_sameSeqs (one : db.OnePending) (same : db.SameSeqs other) :
    other.OnePending := by
  intro seq otherSeq context otherContext found otherFound
  rw [same.getPendingBundle_eq] at found otherFound
  exact one seq otherSeq context otherContext found otherFound

/-- Calls that leave bundles and headers alone keep the wallet's place. -/
theorem Placed.of_sameBundles (placed : db.Placed chain) (same : db.SameBundles other)
    (headers_eq : other.canonicalHeaders = db.canonicalHeaders) : other.Placed chain where
  one := placed.one.of_sameSeqs same.toSameSeqs
  headers := by
    rw [headers_eq]
    exact placed.headers
  bounded := by
    rw [headers_eq]
    exact placed.bounded
  stands := placed.stands.transfer same (.refl _ _) fun _ _ cached => cached

/-- A change of the pool for other accounts keeps the wallet's place. -/
theorem Placed.of_pool (placed : db.Placed chain) {pool : BundlePool H}
    (slot : pool.pendingBySender.get? db.address =
      chain.bundlePool.pendingBySender.get? db.address) :
    db.Placed { chain with bundlePool := pool } where
  one := placed.one
  headers := placed.headers
  bounded := placed.bounded
  stands := placed.stands.transfer (.refl db) ⟨List.Subset.refl _, rfl, slot⟩
    fun _ _ cached => cached

/-! ## Applying the receipt -/

section Applying

variable {receipt : Receipt H} {context : PendingBundleContext H}

/-- The wallet applies the receipt that it waits for. -/
theorem Awaits.execute_eq (awaits : db.Awaits chain receipt context)
    (headers : ∀ block ∈ chain.blocks,
      db.canonicalHeaders.get? block.header.height = some block.headerLite) :
    db.execute (db.onReceiptConfirmed receipt) =
      (.ok (confirmedUnit receipt context), db.afterReceipt receipt context) := by
  obtain ⟨block, block_mem, header_eq⟩ := awaits.header
  have known : db.knowsCanonicalHeader receipt.headerLite = true := by
    rw [header_eq]
    exact decide_eq_true (headers block block_mem)
  have checked : db.ReceiptChecked receipt context :=
    ⟨awaits.pending, known, awaits.prev.checkPrevRef awaits.next, awaits.stateProof⟩
  have unused : db.RefUnused receipt context := awaits.prev.refUnused
  refine Prod.ext ?_ ?_
  · exact execute_onReceiptConfirmed_eq_ok.mpr ⟨context, checked, unused, rfl⟩
  · have performed := checked.perform_eq unused
    rw [perform, plan, execute_forget_snd] at performed
    exact performed

/-- Then it is idle. -/
theorem Awaits.placed_afterReceipt (awaits : db.Awaits chain receipt context)
    (placed : db.Placed chain) : (db.afterReceipt receipt context).Placed chain := by
  have none_pending : ∀ seq, (db.afterReceipt receipt context).getPendingBundle seq = none :=
    placed.one.get?_erase awaits.pending
  refine ⟨onePending_of_none none_pending, placed.headers, placed.bounded, ?_⟩
  refine .idle (keys_of_none_pending none_pending) awaits.slot ?_
  have head : chain.headRefOf (db.afterReceipt receipt context).address =
      some (confirmedRef (confirmedUnit receipt context)) := awaits.head
  rw [head]
  exact awaits.prev.afterReceipt awaits.next awaits.sender

end Applying

/-! ## Submitting a payment -/

section Submitting

variable {publicKeyPem : Bytes} {call : PaymentCall} {tx : OffChainTx}

omit [DecidableEq H] in
/-- An idle wallet continues the chain. -/
theorem Follows.nextSequence_eq (follows : db.Follows (chain.headRefOf db.address))
    (free : db.pendingBundles.keys = []) :
    db.nextSequence = chain.confirmedSeq db.address + 1 := by
  have seq := follows.seq
  rw [nextSequence_of_none (getPendingBundle_of_free free), ← seq, ChainStateV2.confirmedSeq]
  cases chain.headRefOf db.address <;> rfl

omit [DecidableEq H] in
/-- The slot of an idle wallet is open for its next bundle. -/
theorem Follows.slotOpen (follows : db.Follows (chain.headRefOf db.address))
    (free : db.pendingBundles.keys = [])
    (slot : chain.bundlePool.pendingBySender.get? db.address = none) (chainId : ℕ)
    (pays : db.Pays publicKeyPem call tx) :
    chain.SlotOpen (db.paymentSubmission publicKeyPem chainId call tx pays.sender_eq) := by
  have slot : chain.bundlePool.pendingBySender.get? (db.paymentSubmission publicKeyPem chainId call
      tx pays.sender_eq).sidecar.senderAddr = none := slot
  rw [SlotOpen, slot]
  exact follows.nextSequence_eq free

theorem Placed.idle_of_free (placed : db.Placed chain)
    (free : db.pendingBundles.keys = []) :
    chain.bundlePool.pendingBySender.get? db.address = none ∧
      db.Follows (chain.headRefOf db.address) := by
  cases placed.stands with
  | idle _ slot follows => exact ⟨slot, follows⟩
  | pooled submission context pooled =>
      have absent := getPendingBundle_of_free free context.seq
      rw [pooled.pending] at absent
      cases absent
  | confirmed receipt context _ awaits =>
      have absent := getPendingBundle_of_free free receipt.seq
      rw [awaits.pending] at absent
      cases absent

/-- A payment that the pool takes waits there. -/
theorem Placed.submit (placed : db.Placed chain) (pays : db.Pays publicKeyPem call tx)
    (chainId : ℕ) {context : PendingBundleContext H}
    (envelope : context.envelope =
      (db.paymentSubmission publicKeyPem chainId call tx pays.sender_eq).envelope)
    (sidecar : context.sidecar =
      (db.paymentSubmission publicKeyPem chainId call tx pays.sender_eq).sidecar)
    (seq : context.seq = db.nextSequence)
    (bundleHash : context.bundleHash = context.envelope.bundleHash)
    (same : (db.withPendingBundle context).SameBundles other)
    (headers_eq : other.canonicalHeaders = db.canonicalHeaders) :
    other.Placed (chain.withPending
      (db.paymentSubmission publicKeyPem chainId call tx pays.sender_eq)) := by
  obtain ⟨-, follows⟩ := placed.idle_of_free pays.free
  have next_eq := nextSequence_of_none (getPendingBundle_of_free pays.free)
  have waits : (db.withPendingBundle context).Pooled (chain.withPending
      (db.paymentSubmission publicKeyPem chainId call tx pays.sender_eq))
      (db.paymentSubmission publicKeyPem chainId call tx pays.sender_eq) context :=
    { pending := (getPendingBundle_withPendingBundle pays.free).mpr ⟨rfl, rfl⟩
      slot := OrderedDict.get?_set_self _ _ _
      envelope := envelope
      sidecar := sidecar
      seq := seq
      bundleHash := by rw [bundleHash, envelope]
      next := seq.trans next_eq
      follows := ⟨follows.receipts, follows.units, follows.last, follows.seq⟩ }
  refine ⟨(onePending_withPendingBundle pays.free context).of_sameSeqs same.toSameSeqs, ?_, ?_,
    .pooled _ context (waits.transfer same (.refl _ _))⟩
  · rw [headers_eq]
    exact placed.headers
  · rw [headers_eq]
    exact placed.bounded

end Submitting

/-! ## A produced block -/

section Producing

variable {timestamp : ℕ} {proposerSig consensusExtra : Bytes} {limit : Option ℤ}

/-- The receipt of the packed bundle is the one that its wallet waits for. -/
theorem Pooled.awaits_packedReceipt (ideal : IdealAddrKeys H) (wellFormed : chain.WellFormed)
    (alive : ConsensusNode.PackedAlive chain limit) {submission : BundleSubmission H}
    {context : PendingBundleContext H} (pooled : db.Pooled chain submission context)
    (packed : submission ∈ chain.bundlePool.snapshot limit) :
    db.Awaits (chain.buildBlock timestamp proposerSig consensusExtra limit).2
      (chain.packedReceipt (chain.builtBlock timestamp proposerSig consensusExtra limit)
        submission) context := by
  let block := chain.builtBlock timestamp proposerSig consensusExtra limit
  let entry := chain.prepareEntry block.header.height block.blockHash submission
  obtain ⟨sender_eq, ready⟩ := wellFormed.pool db.address submission pooled.slot
  have packs : Packs chain (chain.buildBlock timestamp proposerSig consensusExtra limit).2 block
      submission := wellFormed.packs_builtBlock packed
  have member : (entry, submission.sidecar, submission.senderPublicKeyPem) ∈ diffItems block := by
    have items_eq := chain.diffItems_executedBlock (chain.bundlePool.snapshot limit) timestamp
      proposerSig consensusExtra
    refine items_eq ▸ ?_
    exact List.mem_map.mpr ⟨submission, (perm_sortSubmissions _).mem_iff.mpr packed, rfl⟩
  have leaf_eq : reconstructedLeaf (V2TransferValidator.issuedUnit chain block entry
      submission.sidecar) = entry.newLeaf := by
    simp only [reconstructedLeaf, confirmedRef, V2TransferValidator.issuedUnit,
      ← ready.bundleHash]
    rfl
  have accepted := V2TransferValidator.receiptAccepted_issuedUnit
    (wellFormed.builtBlock_accepted ideal alive timestamp proposerSig consensusExtra) member rfl
    leaf_eq
  have ref_eq : confirmedRef (confirmedUnit (chain.packedReceipt block submission) context) =
      packedRef block submission := by
    simp only [confirmedRef, confirmedUnit, pooled.sidecar, ← ready.bundleHash]
    rfl
  refine
    { pending := ?_
      sender := by rw [pooled.sidecar, sender_eq]
      next := by
        rw [← pooled.next, pooled.seq]
        rfl
      prev := ?_
      stateProof := ?_
      header := ⟨block, List.mem_append_right _ List.mem_cons_self, rfl⟩
      head := by
        rw [ref_eq, ← sender_eq]
        exact packs.head
      slot := by
        rw [← sender_eq]
        exact packs.slot }
  · have seq_eq : (chain.packedReceipt block submission).seq = context.seq := pooled.seq.symm
    rw [seq_eq, pooled.pending]
  · have prev_eq : (chain.packedReceipt block submission).prevRef =
        chain.headRefOf submission.sidecar.senderAddr := rfl
    rw [prev_eq, sender_eq]
    exact pooled.follows
  · rw [pooled.sidecar, ← sender_eq]
    exact accepted.stateProof

/-- Observing the block's header is enough to keep up with the block. -/
theorem headers_observed (heights : ∀ block ∈ chain.blocks,
      block.header.height ≤ chain.currentHeight)
    (headers : ∀ block ∈ chain.blocks,
      db.canonicalHeaders.get? block.header.height = some block.headerLite) :
    let block := chain.builtBlock timestamp proposerSig consensusExtra limit
    ∀ other ∈ (chain.buildBlock timestamp proposerSig consensusExtra limit).2.blocks,
      (db.perform (.observeCanonicalHeader block.headerLite)).canonicalHeaders.get?
        other.header.height = some other.headerLite := by
  intro block other member
  have blocks_eq : (chain.buildBlock timestamp proposerSig consensusExtra limit).2.blocks =
      chain.blocks ++ [block] := rfl
  rw [blocks_eq, List.mem_append, List.mem_singleton] at member
  rw [perform_observeCanonicalHeader]
  rcases member with earlier | rfl
  · have height_le := heights other earlier
    have height_ne : block.headerLite.height ≠ other.header.height := by
      change chain.currentHeight + 1 ≠ other.header.height
      omega
    exact (OrderedDict.get?_set_of_ne _ height_ne _).trans (headers other earlier)
  · exact OrderedDict.get?_set_self _ _ _

variable {size : ℕ} {log : List (CachedBlock H)}

/-- The chain has no receipt for a pooled bundle. -/
theorem Pooled.uncached {size : ℕ} {log : List (CachedBlock H)} (logged : Logged size chain log)
    (once : chain.ConfirmsOnce) {submission : BundleSubmission H}
    {context : PendingBundleContext H} (pooled : db.Pooled chain submission context) :
    chain.receiptCache.getReceipt db.address context.seq = none := by
  refine Option.eq_none_iff_forall_ne_some.mpr fun receipt found => ?_
  obtain ⟨sender_eq, ready⟩ := logged.wellFormed.pool _ _ pooled.slot
  have seq_le := logged.seq_le_of_getReceipt once found
  have seq_eq := ready.seq
  rw [sender_eq, ← pooled.seq] at seq_eq
  omega

/-- A produced block confirms the bundle of a packed account, whose wallet then waits for the
receipt of the block, and leaves the others where they are. -/
theorem Placed.buildBlock (ideal : IdealHash H) (idealKeys : IdealAddrKeys H)
    (positive : 0 < size) (logged : Logged size chain log) (once : chain.ConfirmsOnce)
    (heights : ∀ block ∈ chain.blocks, block.header.height ≤ chain.currentHeight)
    (alive : ConsensusNode.PackedAlive chain limit) (placed : db.Placed chain)
    (recent : ∀ receipt : Receipt H, db.getPendingBundle receipt.seq ≠ none →
      chain.receiptCache.getReceipt db.address receipt.seq = some receipt →
        chain.currentHeight + 1 < receipt.headerLite.height + size) :
    let block := chain.builtBlock timestamp proposerSig consensusExtra limit
    let next := (chain.buildBlock timestamp proposerSig consensusExtra limit).2
    let observed := db.perform (.observeCanonicalHeader block.headerLite)
    observed.Placed next ∧ ∀ receipt, (chain.blockReceipts block).get? db.address = some receipt →
      ∃ context, observed.Awaits next receipt context := by
  intro block next observed
  have wellFormed := logged.wellFormed
  have same : db.SameBundles observed := .perform trivial
  have headers : ∀ other ∈ next.blocks, observed.canonicalHeaders.get? other.header.height =
      some other.headerLite := headers_observed heights placed.headers
  have one := placed.one.of_sameSeqs same.toSameSeqs
  have bounded : ∀ height header, observed.canonicalHeaders.get? height = some header →
      height ≤ next.currentHeight := by
    intro height header found
    have next_height : next.currentHeight = chain.currentHeight + 1 := rfl
    simp only [observed, perform_observeCanonicalHeader, OrderedDict.get?_set] at found
    split at found
    next same_height => exact same_height.ge
    next => exact (placed.bounded height header found).trans (by omega)
  by_cases packed : ∃ submission ∈ chain.bundlePool.snapshot limit,
      submission.sidecar.senderAddr = db.address
  · obtain ⟨submission, member, sender_eq⟩ := packed
    have slot := wellFormed.get?_sender (mem_pending_iff.mpr (mem_snapshot member))
    rw [sender_eq] at slot
    have packs : Packs chain next block submission := wellFormed.packs_builtBlock member
    have cached : next.receiptCache.getReceipt submission.sidecar.senderAddr
        submission.envelope.seq = some (chain.packedReceipt block submission) :=
      logged.getReceipt_packed ideal positive once member
    rw [sender_eq] at cached
    cases placed.stands with
    | idle _ empty _ =>
        rw [slot] at empty
        cases empty
    | confirmed _ _ _ awaits =>
        have empty := awaits.slot
        rw [slot] at empty
        cases empty
    | pooled other context pooled =>
        obtain rfl := Option.some.inj (slot.symm.trans pooled.slot)
        have awaits : observed.Awaits next (chain.packedReceipt block submission) context :=
          (pooled.awaits_packedReceipt idealKeys wellFormed alive member).transfer same (.refl _ _)
        refine ⟨⟨one, headers, bounded, .confirmed (chain.packedReceipt block submission) context
          cached awaits⟩, fun receipt found => ?_⟩
        have issued := packs.receipt
        rw [sender_eq, found] at issued
        rw [Option.some.inj issued]
        exact ⟨context, awaits⟩
  · have spares : Spares chain next block db.address := spares_builtBlock
      fun submission member sender_eq => packed ⟨submission, member, sender_eq⟩
    constructor
    · refine ⟨one, headers, bounded, placed.stands.transfer same ⟨List.subset_append_left _ _,
        spares.head, spares.slot⟩ fun receipt pending found => ?_⟩
      exact logged.getReceipt_buildBlock ideal positive once found (recent receipt pending found)
    · intro receipt found
      rw [spares.receipt] at found
      cases found

end Producing

/-! ## Synchronizing -/

omit [Crypto H] [DecidableEq H] in
/-- One pending bundle is the only one listed. -/
theorem OnePending.keys_eq (one : db.OnePending) {seq : ℕ} {context : PendingBundleContext H}
    (pending : db.getPendingBundle seq = some context) : db.pendingBundles.keys = [seq] := by
  have all_eq : ∀ other ∈ db.pendingBundles.keys, other = seq := by
    intro other member
    cases found : db.getPendingBundle other with
    | none => exact absurd member ((OrderedDict.get?_eq_none_iff _ _).mp found)
    | some otherContext => exact one other seq otherContext context found pending
  have listed : seq ∈ db.pendingBundles.keys := by
    by_contra absent
    rw [getPendingBundle, (OrderedDict.get?_eq_none_iff _ _).mpr absent] at pending
    cases pending
  have sublist := List.subperm_of_subset db.pendingBundles.nodup
    (fun other member => List.mem_singleton.mpr (all_eq other member))
  have others := List.subperm_of_subset (List.nodup_singleton seq)
    (fun other member => List.mem_singleton.mp member ▸ listed)
  exact List.perm_singleton.mp (sublist.antisymm others)

end LocalWalletDB

namespace LocalParticipant

variable {participant : LocalParticipant H} {chain : ChainStateV2 H} {receipt : Receipt H}
  {context : PendingBundleContext H} {size : ℕ} {log : List (CachedBlock H)}

theorem applyReceipt_eq (awaits : participant.wallet.Awaits chain receipt context)
    (placed : participant.wallet.Placed chain) : participant.wallet.applyReceipt receipt =
      (⟨true, none⟩, participant.wallet.afterReceipt receipt context) := by
  rw [LocalWalletDB.applyReceipt, awaits.execute_eq placed.headers]

/-- Synchronizing settles a confirmed bundle and leaves a pooled one in the pool. -/
theorem placed_syncReceipts (logged : Logged size chain log) (once : chain.ConfirmsOnce)
    (placed : participant.wallet.Placed chain) :
    let synced := (participant.syncReceipts chain).wallet
    synced.Placed chain ∧ synced.address = participant.wallet.address ∧
      (chain.bundlePool.pendingBySender.get? participant.wallet.address = none →
        synced.pendingBundles.keys = []) := by
  intro synced
  have single : ∀ {seq : ℕ} {context : PendingBundleContext H},
      participant.wallet.getPendingBundle seq = some context →
        synced = participant.wallet.syncBundle chain seq := by
    intro seq context pending
    simp only [synced, syncReceipts, LocalWalletDB.syncReceipts, placed.one.keys_eq pending]
    rfl
  cases placed.stands with
  | idle free slot follows =>
      have synced_eq : synced = participant.wallet := by
        simp only [synced, syncReceipts, LocalWalletDB.syncReceipts, free]
        rfl
      rw [synced_eq]
      exact ⟨placed, rfl, fun _ => free⟩
  | pooled submission context pooled =>
      have uncached := pooled.uncached logged once
      have synced_eq : synced = participant.wallet.perform (.markReceiptMissing context.seq) := by
        rw [single pooled.pending, LocalWalletDB.syncBundle, uncached]
      rw [synced_eq]
      have same : participant.wallet.SameBundles
          (participant.wallet.perform (.markReceiptMissing context.seq)) := .perform trivial
      have headers_eq : (participant.wallet.perform
          (.markReceiptMissing context.seq)).canonicalHeaders =
            participant.wallet.canonicalHeaders :=
        LocalWalletDB.canonicalHeaders_perform trivial fun header => by simp
      refine ⟨placed.of_sameBundles same headers_eq, same.address, fun slot => ?_⟩
      rw [pooled.slot] at slot
      cases slot
  | confirmed receipt context cached awaits =>
      have synced_eq : synced = participant.wallet.afterReceipt receipt context := by
        rw [single awaits.pending, LocalWalletDB.syncBundle, cached]
        exact congrArg Prod.snd (applyReceipt_eq awaits placed)
      rw [synced_eq]
      exact ⟨awaits.placed_afterReceipt placed, rfl, fun _ =>
        LocalWalletDB.keys_of_none_pending (placed.one.get?_erase awaits.pending)⟩

/-! ## Registering -/

theorem register_eq (participant : LocalParticipant H) (chain : ChainStateV2 H)
    (autoConfirm : Bool) : participant.register chain autoConfirm =
      { participant with
        autoConfirm := autoConfirm
        wallet := { participant.wallet with
          canonicalHeaders := participant.wallet.canonicalHeaders.setAll
            (chain.blocks.map fun block => (block.header.height, block.headerLite)) } } := by
  have observed : ∀ (blocks : List (BlockV2 H)) (participant : LocalParticipant H),
      blocks.foldl observeBlock participant = { participant with
        wallet := { participant.wallet with
          canonicalHeaders := participant.wallet.canonicalHeaders.setAll
            (blocks.map fun block => (block.header.height, block.headerLite)) } } := by
    intro blocks
    induction blocks with
    | nil => exact fun participant => rfl
    | cons block blocks induction =>
        intro participant
        rw [List.foldl_cons, induction]
        rfl
  exact observed chain.blocks _

/-- A registered wallet knows the headers of the chain. -/
theorem placed_register (nodup : (chain.blocks.map fun block => block.header.height).Nodup)
    (heights : ∀ block ∈ chain.blocks, block.header.height ≤ chain.currentHeight)
    (one : participant.wallet.OnePending)
    (bounded : ∀ height header, participant.wallet.canonicalHeaders.get? height = some header →
      height ≤ chain.currentHeight)
    (stands : participant.wallet.Stands chain) (autoConfirm : Bool) :
    (participant.register chain autoConfirm).wallet.Placed chain := by
  rw [register_eq]
  refine ⟨one.of_sameSeqs ⟨rfl, rfl, rfl⟩, fun block member => ?_, fun height header found => ?_,
    stands.transfer ⟨⟨rfl, rfl, rfl⟩, rfl⟩ (.refl _ _) fun _ _ cached => cached⟩
  · refine OrderedDict.get?_setAll_of_mem _ ?_ (List.mem_map.mpr ⟨block, member, rfl⟩)
    rw [List.map_map]
    exact nodup
  · rcases OrderedDict.get?_setAll_eq_some _ found with shared | ⟨_, earlier⟩
    · obtain ⟨block, member, pair_eq⟩ := List.mem_map.mp shared
      rw [← (Prod.mk.inj pair_eq).1]
      exact heights block member
    · exact bounded height header earlier

/-! ## Delivering receipts -/

/-- The participant after the delivery of its receipt. -/
def delivered (participant : LocalParticipant H) (receipt : Receipt H) : LocalParticipant H :=
  if participant.autoConfirm then
    { participant with wallet := (participant.wallet.applyReceipt receipt).2 }
  else participant

variable {participants : OrderedDict Address (LocalParticipant H)}

theorem get?_deliverReceipt (senderAddr : Address) (receipt : Receipt H) (address : Address) :
    (deliverReceipt participants senderAddr receipt).2.get? address =
      if senderAddr = address then (participants.get? address).map (delivered · receipt)
      else participants.get? address := by
  rw [deliverReceipt]
  split
  next absent =>
    split
    next same =>
      rw [← same, absent]
      rfl
    · rfl
  next participant found =>
    split
    next confirms =>
      rw [OrderedDict.get?_set]
      split
      next same =>
        rw [← same, found, Option.map_some, delivered, if_pos confirms]
      · rfl
    next keeps =>
      split
      next same =>
        rw [← same, found, Option.map_some, delivered, if_neg keeps]
      · rfl

/-- Every participant gets the receipt under its own address. -/
theorem get?_deliverReceipts {receipts : List (Address × Receipt H)}
    (nodup : (receipts.map Prod.fst).Nodup) (address : Address) :
    (deliverReceipts participants receipts).2.get? address =
      match OrderedDict.findValue address receipts with
      | none => participants.get? address
      | some receipt => (participants.get? address).map (delivered · receipt) := by
  induction receipts generalizing participants with
  | nil => rfl
  | cons item rest induction =>
      obtain ⟨senderAddr, receipt⟩ := item
      rw [List.map_cons, List.nodup_cons] at nodup
      have rest_eq := @induction (deliverReceipt participants senderAddr receipt).2 nodup.2
      rw [get?_deliverReceipt] at rest_eq
      rw [deliverReceipts]
      apply rest_eq.trans
      by_cases same : senderAddr = address
      · subst same
        have last : OrderedDict.findValue senderAddr rest = none :=
          (OrderedDict.findValue_eq_none_iff _ _).mpr nodup.1
        have first : OrderedDict.findValue senderAddr ((senderAddr, receipt) :: rest) =
            some receipt := by simp [OrderedDict.findValue]
        rw [last, first, if_pos rfl]
      · have later : OrderedDict.findValue address ((senderAddr, receipt) :: rest) =
            OrderedDict.findValue address rest := by simp [OrderedDict.findValue, same]
        rw [later, if_neg same]

end LocalParticipant

end EZChain
