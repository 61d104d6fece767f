import EZChain.Chain.Admission
import EZChain.Chain.ReceiptRuns
import EZChain.Chain.Replay
import EZChain.Host.Payments

/-!
# Packed and spared accounts

A built block confirms the bundle of every account that it packs: the account's head, its pool slot
and its receipt are those of the bundle.  For every other account it changes nothing.  So built
blocks confirm each seq of an account at most once, and the cache keeps the receipts of as many
heights as it has room for.
-/

namespace EZChain

open Checks

namespace ReceiptCache

variable {H : Type}

/-! ## Recent heights -/

theorem length_le_of_increasing {heights : List ℕ} (increasing : heights.Pairwise (· < ·))
    {bottom top : ℕ} (above : ∀ height ∈ heights, bottom < height)
    (below : ∀ height ∈ heights, height ≤ top) : heights.length ≤ top - bottom := by
  have nodup : heights.Nodup := increasing.imp fun less => less.ne
  have inside : heights ⊆ List.range' (bottom + 1) (top - bottom) := by
    intro height member
    have greater := above height member
    have smaller := below height member
    rw [List.mem_range'_1]
    omega
  have shorter := (List.subperm_of_subset nodup inside).length_le
  rwa [List.length_range'] at shorter

/-- A block with receipts is in the window as long as its height is among the last ones. -/
theorem mem_window_of_recent {size top : ℕ} {log : List (CachedBlock H)} {block : CachedBlock H}
    (increasing : (log.map CachedBlock.height).Pairwise (· < ·))
    (below : ∀ other ∈ log, other.height ≤ top) (member : block ∈ log)
    (nonempty : block.receipts ≠ []) (recent : top < block.height + size) :
    block ∈ window size log := by
  have kept : block ∈ log.filter fun block => !block.receipts.isEmpty :=
    List.mem_filter.mpr ⟨member, by simpa using nonempty⟩
  have sublist := List.filter_sublist (p := fun block : CachedBlock H => !block.receipts.isEmpty)
    (l := log)
  obtain ⟨front, back, split⟩ := List.append_of_mem kept
  have ordered := increasing.sublist (sublist.map CachedBlock.height)
  rw [split, List.map_append, List.map_cons, List.pairwise_append, List.pairwise_cons] at ordered
  have back_length : (back.map CachedBlock.height).length ≤ top - block.height := by
    refine length_le_of_increasing ordered.2.1.2 ordered.2.1.1 fun height height_mem => ?_
    obtain ⟨other, other_mem, rfl⟩ := List.mem_map.mp height_mem
    have listed : other ∈ front ++ block :: back :=
      List.mem_append_right _ (List.mem_cons_of_mem _ other_mem)
    rw [← split] at listed
    exact below other (sublist.subset listed)
  have height_le := below block member
  rw [List.length_map] at back_length
  have few : (front ++ block :: back).length - size ≤ front.length := by
    rw [List.length_append, List.length_cons]
    omega
  rw [window, split, List.rtake, List.drop_append_of_le_length few]
  exact List.mem_append_right _ List.mem_cons_self

end ReceiptCache

namespace ChainStateV2

variable {H : Type} [Crypto H]

/-! ## One account in a built block -/

omit [Crypto H] in
theorem seq_pos_of_submission (submission : BundleSubmission H) : 0 < submission.envelope.seq :=
  submission.envelope.seq_pos

/-- The reference under which a block confirms a bundle. -/
def packedRef (block : BlockV2 H) (submission : BundleSubmission H) : BundleRef H where
  height := block.header.height
  blockHash := block.blockHash
  bundleHash := submission.envelope.bundleHash
  seq := submission.envelope.seq
  seq_pos := seq_pos_of_submission submission

/-- The receipt that a block issues for a packed bundle. -/
def packedReceipt (state : ChainStateV2 H) (block : BlockV2 H) (submission : BundleSubmission H) :
    Receipt H :=
  state.appliedReceipt block (setLeaves state.tree block.diffPackage.diffEntries)
    (state.prepareEntry block.header.height block.blockHash submission)

/-- The block confirms the bundle. -/
structure Packs (state next : ChainStateV2 H) (block : BlockV2 H)
    (submission : BundleSubmission H) : Prop where
  head : next.headRefOf submission.sidecar.senderAddr = some (packedRef block submission)
  slot : next.bundlePool.pendingBySender.get? submission.sidecar.senderAddr = none
  receipt : (state.blockReceipts block).get? submission.sidecar.senderAddr =
    some (state.packedReceipt block submission)

/-- The block has nothing of the account. -/
structure Spares (state next : ChainStateV2 H) (block : BlockV2 H) (addr : Address) : Prop where
  head : next.headRefOf addr = state.headRefOf addr
  slot : next.bundlePool.pendingBySender.get? addr = state.bundlePool.pendingBySender.get? addr
  receipt : (state.blockReceipts block).get? addr = none

variable [DecidableEq H] {state : ChainStateV2 H} {timestamp : ℕ}
  {proposerSig consensusExtra : Bytes} {limit : Option ℤ}

section Built

omit [DecidableEq H]

theorem mem_diffEntries_builtBlock {entry : DiffEntry H} :
    entry ∈ (state.builtBlock timestamp proposerSig consensusExtra limit).diffPackage.diffEntries ↔
      ∃ submission ∈ state.bundlePool.snapshot limit,
        state.prepareEntry (state.currentHeight + 1)
          (state.builtBlock timestamp proposerSig consensusExtra limit).blockHash submission =
            entry := by
  rw [builtBlock, diffEntries_executedBlock, List.mem_map]
  simp only [(perm_sortSubmissions _).mem_iff]

/-- Without a limit every pending bundle is packed. -/
theorem mem_snapshot_none {addr : Address} {submission : BundleSubmission H}
    (pending : state.bundlePool.pendingBySender.get? addr = some submission) :
    submission ∈ state.bundlePool.snapshot none := by
  rw [BundlePool.snapshot, sliceTo]
  exact (List.perm_insertionSort _ _).mem_iff.mpr ((OrderedDict.mem_values_iff _ _).mpr
    ⟨addr, pending⟩)

theorem get?_blockReceipts_of_mem {block : BlockV2 H}
    (sendersNodup : (block.diffPackage.diffEntries.map fun entry => entry.newLeaf.addr).Nodup)
    {entry : DiffEntry H} (member : entry ∈ block.diffPackage.diffEntries) :
    (state.blockReceipts block).get? entry.newLeaf.addr = some (state.appliedReceipt block
      (setLeaves state.tree block.diffPackage.diffEntries) entry) := by
  refine OrderedDict.get?_setAll_of_mem _ ?_ (List.mem_map.mpr ⟨entry, member, rfl⟩)
  rw [List.map_map]
  exact sendersNodup

theorem get?_blockReceipts_of_notMem {block : BlockV2 H} {addr : Address}
    (absent : ∀ entry ∈ block.diffPackage.diffEntries, entry.newLeaf.addr ≠ addr) :
    (state.blockReceipts block).get? addr = none := by
  rw [blockReceipts, receiptDict, OrderedDict.get?_setAll_of_notMem]
  · rfl
  · rw [List.map_map]
    intro written
    obtain ⟨entry, member, addr_eq⟩ := List.mem_map.mp written
    exact absent entry member addr_eq

end Built

theorem currentHeight_buildBlock :
    (state.buildBlock timestamp proposerSig consensusExtra limit).2.currentHeight =
      state.currentHeight + 1 := rfl

/-- A packed bundle is confirmed. -/
theorem WellFormed.packs_builtBlock (wellFormed : state.WellFormed)
    {submission : BundleSubmission H} (packed : submission ∈ state.bundlePool.snapshot limit) :
    Packs state (state.buildBlock timestamp proposerSig consensusExtra limit).2
      (state.builtBlock timestamp proposerSig consensusExtra limit) submission := by
  let block := state.builtBlock timestamp proposerSig consensusExtra limit
  let entry := state.prepareEntry block.header.height block.blockHash submission
  have nodup := wellFormed.sendersNodup_builtBlock timestamp proposerSig consensusExtra limit
  have member : entry ∈ block.diffPackage.diffEntries :=
    mem_diffEntries_builtBlock.mpr ⟨submission, packed, rfl⟩
  have leaf_eq := get?_setAccountLeaves_of_mem state.accountLeaves nodup member
  have pending := wellFormed.get?_sender (mem_pending_iff.mpr (mem_snapshot packed))
  refine ⟨?_, ?_, get?_blockReceipts_of_mem nodup member⟩
  · rw [ChainStateV2.buildBlock, executeSubmissions_eq]
    change ((setAccountLeaves state.accountLeaves block.diffPackage.diffEntries).get?
      submission.sidecar.senderAddr).bind AccountLeaf.headRef = _
    have leaf_eq : (setAccountLeaves state.accountLeaves block.diffPackage.diffEntries).get?
      submission.sidecar.senderAddr = some entry.newLeaf := leaf_eq
    rw [leaf_eq]
    rfl
  · rw [ChainStateV2.buildBlock, executeSubmissions_eq]
    refine Option.eq_none_iff_forall_ne_some.mpr fun other found => ?_
    obtain ⟨kept, later⟩ := get?_foldl_removeFinalizedBundle (state.bundlePool.snapshot limit)
      (fun submission => submission.sidecar.senderAddr) (fun submission => submission.envelope.seq)
      (fun submission => submission.envelope.bundleHash) state.bundlePool found
    have above := later submission packed rfl
    obtain rfl := Option.some.inj (pending.symm.trans kept)
    exact absurd above (lt_irrefl _)

/-- An account without a packed bundle is spared. -/
theorem spares_builtBlock {addr : Address}
    (others : ∀ submission ∈ state.bundlePool.snapshot limit,
      submission.sidecar.senderAddr ≠ addr) :
    Spares state (state.buildBlock timestamp proposerSig consensusExtra limit).2
      (state.builtBlock timestamp proposerSig consensusExtra limit) addr := by
  let block := state.builtBlock timestamp proposerSig consensusExtra limit
  have absent : ∀ entry ∈ block.diffPackage.diffEntries, entry.newLeaf.addr ≠ addr := by
    intro entry member
    obtain ⟨submission, packed, rfl⟩ := mem_diffEntries_builtBlock.mp member
    exact others submission packed
  have unwritten : addr ∉ block.diffPackage.diffEntries.map fun entry => entry.newLeaf.addr := by
    intro written
    obtain ⟨entry, member, addr_eq⟩ := List.mem_map.mp written
    exact absent entry member addr_eq
  refine ⟨?_, ?_, get?_blockReceipts_of_notMem absent⟩
  · rw [ChainStateV2.buildBlock, executeSubmissions_eq]
    change ((setAccountLeaves state.accountLeaves block.diffPackage.diffEntries).get? addr).bind
      AccountLeaf.headRef = _
    rw [get?_setAccountLeaves_of_notMem state.accountLeaves unwritten]
    rfl
  · rw [ChainStateV2.buildBlock, executeSubmissions_eq]
    exact get?_foldl_removeFinalizedBundle_of_ne (state.bundlePool.snapshot limit)
      (fun submission => submission.sidecar.senderAddr) (fun submission => submission.envelope.seq)
      (fun submission => submission.envelope.bundleHash) state.bundlePool others

omit [DecidableEq H] in
theorem Spares.confirmedSeq {next : ChainStateV2 H} {block : BlockV2 H} {addr : Address}
    (spares : Spares state next block addr) : next.confirmedSeq addr = state.confirmedSeq addr := by
  rw [ChainStateV2.confirmedSeq, spares.head, ChainStateV2.confirmedSeq]

omit [DecidableEq H] in
theorem Packs.confirmedSeq {next : ChainStateV2 H} {block : BlockV2 H}
    {submission : BundleSubmission H} (packs : Packs state next block submission) :
    next.confirmedSeq submission.sidecar.senderAddr = submission.envelope.seq := by
  rw [ChainStateV2.confirmedSeq, packs.head]
  rfl

/-! ## Each seq once -/

/-- No account confirmed a seq twice, or above its head. -/
structure ConfirmsOnce (state : ChainStateV2 H) : Prop where
  nodup : (state.blocks.flatMap confirmedSeqs).Nodup
  below : ∀ item ∈ state.blocks.flatMap confirmedSeqs, item.2 ≤ state.confirmedSeq item.1

theorem ConfirmsOnce.buildBlock (once : state.ConfirmsOnce) (wellFormed : state.WellFormed) :
    (state.buildBlock timestamp proposerSig consensusExtra limit).2.ConfirmsOnce := by
  let block := state.builtBlock timestamp proposerSig consensusExtra limit
  let next := (state.buildBlock timestamp proposerSig consensusExtra limit).2
  have blocks_eq : next.blocks = state.blocks ++ [block] := rfl
  have sendersNodup := wellFormed.sendersNodup_builtBlock timestamp proposerSig consensusExtra limit
  have packed_item : ∀ item ∈ confirmedSeqs block,
      ∃ submission ∈ state.bundlePool.snapshot limit, item.1 = submission.sidecar.senderAddr ∧
        item.2 = submission.envelope.seq := by
    intro item member
    obtain ⟨entry, entry_mem, rfl⟩ := List.mem_map.mp member
    obtain ⟨submission, packed, rfl⟩ := mem_diffEntries_builtBlock.mp entry_mem
    exact ⟨submission, packed, rfl, rfl⟩
  have follows : ∀ submission ∈ state.bundlePool.snapshot limit,
      submission.envelope.seq = state.confirmedSeq submission.sidecar.senderAddr + 1 :=
    fun submission packed => ((wellFormed.snapshot_ready limit).ready submission packed).seq
  have raised : ∀ addr, state.confirmedSeq addr ≤ next.confirmedSeq addr := by
    intro addr
    by_cases packed : ∃ submission ∈ state.bundlePool.snapshot limit,
        submission.sidecar.senderAddr = addr
    · obtain ⟨submission, member, rfl⟩ := packed
      rw [(wellFormed.packs_builtBlock member).confirmedSeq, follows submission member]
      exact Nat.le_succ _
    · rw [(spares_builtBlock fun submission member same =>
        packed ⟨submission, member, same⟩).confirmedSeq]
  constructor
  · rw [blocks_eq, List.flatMap_append, List.flatMap_singleton]
    refine once.nodup.append ?_ fun item earlier added => ?_
    · apply List.Nodup.of_map Prod.fst
      rw [confirmedSeqs, List.map_map]
      exact sendersNodup
    · obtain ⟨submission, packed, addr_eq, seq_eq⟩ := packed_item item added
      have item_le := once.below item earlier
      rw [addr_eq, seq_eq, follows submission packed] at item_le
      exact absurd item_le (Nat.not_succ_le_self _)
  · rw [blocks_eq, List.flatMap_append, List.flatMap_singleton]
    intro item member
    rcases List.mem_append.mp member with earlier | added
    · exact (once.below item earlier).trans (raised item.1)
    · obtain ⟨submission, packed, addr_eq, seq_eq⟩ := packed_item item added
      rw [addr_eq, seq_eq, (wellFormed.packs_builtBlock packed).confirmedSeq]

/-! ## Cached receipts -/

section Cached

variable {size : ℕ} {log : List (CachedBlock H)} {addr : Address} {seq : ℕ} {receipt : Receipt H}

omit [DecidableEq H] in
/-- A state that differs in its pool has the same log. -/
theorem Logged.restore {other : ChainStateV2 H} (logged : Logged size state log)
    (same : other.SameLedger state) (wellFormed : other.WellFormed) : Logged size other log := by
  obtain ⟨pool, rfl⟩ := same
  exact { logged with wellFormed := wellFormed }

theorem Logged.getReceipt_iff (logged : Logged size state log) (once : state.ConfirmsOnce) :
    state.receiptCache.getReceipt addr seq = some receipt ↔
      ∃ block ∈ ReceiptCache.window size log, ∃ ref, (addr, receipt, ref) ∈ block.receipts ∧
        receipt.seq = seq :=
  (logged.shows once.nodup).holds.receipt_iff addr seq receipt

/-- A cached receipt is about a confirmed bundle. -/
theorem Logged.seq_le_of_getReceipt (logged : Logged size state log) (once : state.ConfirmsOnce)
    (found : state.receiptCache.getReceipt addr seq = some receipt) :
    seq ≤ state.confirmedSeq addr := by
  obtain ⟨block, block_mem, ref, item_mem, rfl⟩ := (logged.getReceipt_iff once).mp found
  have block_mem := (ReceiptCache.window_sublist _ _).subset block_mem
  have listed : (addr, receipt.seq) ∈ log.flatMap CachedBlock.senderSeqs :=
    List.mem_flatMap.mpr ⟨block, block_mem, List.mem_map.mpr ⟨_, item_mem, rfl⟩⟩
  rw [logged.senderSeqs] at listed
  exact once.below _ listed

variable (ideal : IdealHash H) (positive : 0 < size) (logged : Logged size state log)
  (once : state.ConfirmsOnce)

include ideal positive logged in
theorem Logged.buildBlock : Logged size
    (state.buildBlock timestamp proposerSig consensusExtra limit).2
    (log ++ [state.cachedBlock (state.builtBlock timestamp proposerSig consensusExtra limit)]) := by
  have extended : Extended state (state.buildBlock timestamp proposerSig consensusExtra limit).2
      (state.builtBlock timestamp proposerSig consensusExtra limit) := by
    have committed := logged.wellFormed.committed_builtBlock timestamp proposerSig consensusExtra
      limit
    refine ⟨committed, rfl, rfl, rfl, ?_⟩
    rw [← committed.receiptCache_nextState, ChainStateV2.buildBlock, executeSubmissions_eq]
    rfl
  exact logged.extend ideal positive extended (logged.wellFormed.buildBlock _ _ _ _)

include ideal positive logged once in
/-- A cached receipt survives a built block that is not too high for it. -/
theorem Logged.getReceipt_buildBlock
    (found : state.receiptCache.getReceipt addr seq = some receipt)
    (recent : state.currentHeight + 1 < receipt.headerLite.height + size) :
    (state.buildBlock timestamp proposerSig consensusExtra limit).2.receiptCache.getReceipt addr
      seq = some receipt := by
  have extended : Logged size
      (state.buildBlock timestamp proposerSig consensusExtra limit).2 _ :=
    logged.buildBlock ideal positive
  obtain ⟨block, block_mem, ref, item_mem, rfl⟩ := (logged.getReceipt_iff once).mp found
  have block_mem := (ReceiptCache.window_sublist _ _).subset block_mem
  have height_eq : receipt.headerLite.height = block.height :=
    congrArg HeaderLite.height (logged.consistent block block_mem _ item_mem)
  refine (extended.getReceipt_iff (once.buildBlock logged.wellFormed)).mpr
    ⟨block, ?_, ref, item_mem, rfl⟩
  refine ReceiptCache.mem_window_of_recent extended.increasing extended.heights
    (List.mem_append_left _ block_mem) (List.ne_nil_of_mem item_mem) ?_
  rwa [← height_eq]

include ideal positive logged once in
/-- The receipts of a built block are cached. -/
theorem Logged.getReceipt_packed {submission : BundleSubmission H}
    (packed : submission ∈ state.bundlePool.snapshot limit) :
    (state.buildBlock timestamp proposerSig consensusExtra limit).2.receiptCache.getReceipt
      submission.sidecar.senderAddr submission.envelope.seq =
        some (state.packedReceipt (state.builtBlock timestamp proposerSig consensusExtra limit)
          submission) := by
  let block := state.builtBlock timestamp proposerSig consensusExtra limit
  have extended : Logged size
      (state.buildBlock timestamp proposerSig consensusExtra limit).2 _ :=
    logged.buildBlock ideal positive
  have item_mem : (submission.sidecar.senderAddr, state.packedReceipt block submission,
      packedRef block submission) ∈ (state.cachedBlock block).receipts :=
    List.mem_filterMap.mpr ⟨state.prepareEntry block.header.height block.blockHash submission,
      mem_diffEntries_builtBlock.mpr ⟨submission, packed, rfl⟩, rfl⟩
  refine (extended.getReceipt_iff (once.buildBlock logged.wellFormed)).mpr
    ⟨state.cachedBlock block, ?_, _, item_mem, rfl⟩
  refine ReceiptCache.mem_window_of_recent extended.increasing extended.heights
    (List.mem_append_right _ List.mem_cons_self) (List.ne_nil_of_mem item_mem) ?_
  change block.header.height < block.header.height + size
  omega

end Cached

/-! ## Forgotten receipts -/

/-- Every height up to the current one has a logged block with receipts. -/
structure FullyLogged (size : ℕ) (state : ChainStateV2 H) (log : List (CachedBlock H)) : Prop
    extends Logged size state log where
  heights_eq : log.map CachedBlock.height = List.range' 1 state.currentHeight
  nonempty : ∀ block ∈ log, block.receipts ≠ []

section Forgotten

variable {size : ℕ} {log : List (CachedBlock H)} {addr : Address} {seq : ℕ} {receipt : Receipt H}

omit [DecidableEq H] in
theorem FullyLogged.restore {other : ChainStateV2 H} (logged : FullyLogged size state log)
    (same : other.SameLedger state) (wellFormed : other.WellFormed) :
    FullyLogged size other log where
  toLogged := logged.toLogged.restore same wellFormed
  heights_eq := by rw [same.currentHeight, logged.heights_eq]
  nonempty := logged.nonempty

theorem FullyLogged.buildBlock (ideal : IdealHash H) (positive : 0 < size)
    (logged : FullyLogged size state log) (pending : state.bundlePool.snapshot limit ≠ []) :
    FullyLogged size (state.buildBlock timestamp proposerSig consensusExtra limit).2
      (log ++ [state.cachedBlock
        (state.builtBlock timestamp proposerSig consensusExtra limit)]) where
  toLogged := logged.toLogged.buildBlock ideal positive
  heights_eq := by
    rw [List.map_append, logged.heights_eq, currentHeight_buildBlock, List.range'_concat,
      Nat.one_mul, Nat.add_comm 1]
    rfl
  nonempty := by
    intro block member
    rcases List.mem_append.mp member with earlier | added
    · exact logged.nonempty block earlier
    · obtain ⟨submission, packed⟩ := List.exists_mem_of_ne_nil _ pending
      rw [List.mem_singleton.mp added]
      exact List.ne_nil_of_mem (List.mem_filterMap.mpr ⟨state.prepareEntry _ _ submission,
        mem_diffEntries_builtBlock.mpr ⟨submission, packed, rfl⟩, rfl⟩)

omit [DecidableEq H] in
theorem FullyLogged.height_of_mem_window (logged : FullyLogged size state log)
    {block : CachedBlock H} (member : block ∈ ReceiptCache.window size log) :
    state.currentHeight < block.height + size := by
  have kept : (log.filter fun block => !block.receipts.isEmpty) = log :=
    List.filter_eq_self.mpr fun block block_mem => by simpa using logged.nonempty block block_mem
  have listed : block.height ∈ (log.map CachedBlock.height).rtake size := by
    rw [List.rtake, List.length_map, ← List.map_drop]
    rw [ReceiptCache.window, kept] at member
    exact List.mem_map_of_mem member
  rw [logged.heights_eq, List.rtake, List.length_range', List.drop_range',
    List.mem_range'_1] at listed
  omega

/-- A built block pushes the receipts out that are too low for the cache. -/
theorem FullyLogged.getReceipt_forgotten (ideal : IdealHash H) (positive : 0 < size)
    (logged : FullyLogged size state log) (once : state.ConfirmsOnce)
    (pending : state.bundlePool.snapshot limit ≠ [])
    (found : state.receiptCache.getReceipt addr seq = some receipt)
    (old : receipt.headerLite.height + size ≤ state.currentHeight + 1) :
    (state.buildBlock timestamp proposerSig consensusExtra limit).2.receiptCache.getReceipt addr
      seq = none := by
  have extended : FullyLogged size
      (state.buildBlock timestamp proposerSig consensusExtra limit).2 _ :=
    logged.buildBlock ideal positive pending
  have next_once : (state.buildBlock timestamp proposerSig consensusExtra limit).2.ConfirmsOnce :=
    once.buildBlock logged.wellFormed
  obtain ⟨block, block_mem, ref, item_mem, rfl⟩ := (logged.getReceipt_iff once).mp found
  have block_mem := (ReceiptCache.window_sublist _ _).subset block_mem
  have height_eq : receipt.headerLite.height = block.height :=
    congrArg HeaderLite.height (logged.consistent block block_mem _ item_mem)
  refine Option.eq_none_iff_forall_ne_some.mpr fun other other_found => ?_
  obtain ⟨holder, holder_mem, otherRef, other_mem, seq_eq⟩ :=
    (extended.getReceipt_iff next_once).mp other_found
  have recent := extended.height_of_mem_window holder_mem
  have holder_mem := (ReceiptCache.window_sublist _ _).subset holder_mem
  -- The two receipts have one sender and one seq, so they come from the same block.
  have same : holder = block := by
    by_contra different
    have : Std.Symm (Function.onFun List.Disjoint
        (CachedBlock.senderSeqs : CachedBlock H → List (Address × ℕ))) :=
      ⟨fun _ _ disjoint => disjoint.symm⟩
    have nodup := extended.senderSeqs ▸ next_once.nodup
    have apart := (List.nodup_flatMap.mp nodup).2.forall
      holder_mem (List.mem_append_left _ block_mem) different
    refine apart (List.mem_map.mpr ⟨_, other_mem, rfl⟩) (List.mem_map.mpr ⟨_, item_mem, ?_⟩)
    rw [seq_eq]
  rw [same] at recent
  rw [currentHeight_buildBlock] at recent
  omega

end Forgotten

end ChainStateV2

end EZChain
