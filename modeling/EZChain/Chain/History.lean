import EZChain.Chain.PeerBlock

/-!
# Confirmation history

Every accepted chain confirms the bundles of each sender.  When the heads written by the blocks
carry the height of their block and the seq of their envelope, the seqs of a sender are
1, 2, …, k, its leaf holds the last two confirmations, and no envelope is confirmed twice.
-/

namespace EZChain

namespace ChainStateV2

variable {H : Type} [Crypto H] [DecidableEq H]

/-! ## Confirmations of a chain -/

section Confirmations

omit [Crypto H] [DecidableEq H]

/-- The reference of a bundle confirmed by an entry of a block. -/
def entryRef (block : BlockV2 H) (entry : DiffEntry H) : BundleRef H where
  height := block.header.height
  blockHash := block.blockHash
  bundleHash := entry.bundleHash
  seq := entry.bundleEnvelope.seq
  seq_pos := entry.seq_pos

/-- Entries of a block that confirm bundles of a sender. -/
def senderEntries (block : BlockV2 H) (sender : Address) : List (DiffEntry H) :=
  block.diffPackage.diffEntries.filter fun entry => entry.newLeaf.addr = sender

/-- References of the confirmed bundles of a sender, in chain order. -/
def confirmations (blocks : List (BlockV2 H)) (sender : Address) : List (BundleRef H) :=
  blocks.flatMap fun block => (senderEntries block sender).map (entryRef block)

/-- All confirmed envelopes, in chain order. -/
def confirmedEnvelopes (blocks : List (BlockV2 H)) : List (BundleEnvelope H) :=
  blocks.flatMap fun block => block.diffPackage.diffEntries.map DiffEntry.bundleEnvelope

/-- The heads written by a block carry its height and the seqs of its envelopes. -/
def HeadsMatch (block : BlockV2 H) : Prop :=
  ∀ entry ∈ block.diffPackage.diffEntries, ∀ headRef, entry.newLeaf.headRef = some headRef →
    headRef.height = block.header.height ∧ headRef.seq = entry.bundleEnvelope.seq

/-- What the chain and the leaf of one sender say about each other. -/
structure SenderHistory (blocks : List (BlockV2 H)) (state : ChainStateV2 H)
    (sender : Address) : Prop where
  /-- The confirmed seqs are 1, 2, …, k. -/
  seqs : (confirmations blocks sender).map BundleRef.seq =
    List.range' 1 (confirmations blocks sender).length
  /-- A sender without leaf has no confirmed bundle. -/
  unknown : state.accountLeaves.get? sender = none → confirmations blocks sender = []
  /-- The leaf holds the last confirmation and the one before it. -/
  leaf : ∀ leaf, state.accountLeaves.get? sender = some leaf →
    confirmations blocks sender ≠ [] ∧ leaf.headRef = (confirmations blocks sender).getLast? ∧
      leaf.prevRef = (confirmations blocks sender).dropLast.getLast?

/-- Gap-free confirmation of all senders, and no envelope confirmed twice. -/
structure History (blocks : List (BlockV2 H)) (state : ChainStateV2 H) : Prop where
  senders : ∀ sender, SenderHistory blocks state sender
  once : (confirmedEnvelopes blocks).Nodup

end Confirmations

/-! ## One block -/

section Step

omit [Crypto H] [DecidableEq H]

theorem confirmations_concat (blocks : List (BlockV2 H)) (block : BlockV2 H) (sender : Address) :
    confirmations (blocks ++ [block]) sender =
      confirmations blocks sender ++ (senderEntries block sender).map (entryRef block) := by
  simp [confirmations]

theorem confirmedEnvelopes_concat (blocks : List (BlockV2 H)) (block : BlockV2 H) :
    confirmedEnvelopes (blocks ++ [block]) =
      confirmedEnvelopes blocks ++ block.diffPackage.diffEntries.map DiffEntry.bundleEnvelope := by
  simp [confirmedEnvelopes]

theorem senderEntries_of_notMem {block : BlockV2 H} {sender : Address}
    (absent : sender ∉ block.diffPackage.diffEntries.map fun entry => entry.newLeaf.addr) :
    senderEntries block sender = [] := by
  apply List.filter_eq_nil_iff.mpr
  intro entry member addr_eq
  exact absent (List.mem_map.mpr ⟨entry, member, of_decide_eq_true addr_eq⟩)

theorem filter_addr_eq_singleton {entries : List (DiffEntry H)}
    (nodup : (entries.map fun entry => entry.newLeaf.addr).Nodup) {entry : DiffEntry H}
    (member : entry ∈ entries) :
    entries.filter (fun other => other.newLeaf.addr = entry.newLeaf.addr) = [entry] := by
  induction entries with
  | nil => cases member
  | cons head rest induction =>
      obtain ⟨head_fresh, rest_nodup⟩ := List.nodup_cons.mp nodup
      rcases List.mem_cons.mp member with rfl | member
      · have rest_nil :
            rest.filter (fun other => other.newLeaf.addr = entry.newLeaf.addr) = [] := by
          apply List.filter_eq_nil_iff.mpr
          intro other other_mem addr_eq
          exact head_fresh (List.mem_map.mpr ⟨other, other_mem, of_decide_eq_true addr_eq⟩)
        simp [rest_nil]
      · have head_ne : head.newLeaf.addr ≠ entry.newLeaf.addr := fun addr_eq =>
          head_fresh (List.mem_map.mpr ⟨entry, member, addr_eq.symm⟩)
        simp [head_ne, induction rest_nodup member]

theorem senderEntries_eq_singleton {block : BlockV2 H}
    (nodup : (block.diffPackage.diffEntries.map fun entry => entry.newLeaf.addr).Nodup)
    {entry : DiffEntry H} (member : entry ∈ block.diffPackage.diffEntries) :
    senderEntries block entry.newLeaf.addr = [entry] :=
  filter_addr_eq_singleton nodup member

theorem SenderHistory.headRefOf_eq {blocks : List (BlockV2 H)} {state : ChainStateV2 H}
    {sender : Address} (history : SenderHistory blocks state sender) :
    state.headRefOf sender = (confirmations blocks sender).getLast? := by
  cases found : state.accountLeaves.get? sender with
  | none => simp [headRefOf, found, history.unknown found]
  | some leaf => simp [headRefOf, found, (history.leaf leaf found).2.1]

theorem SenderHistory.confirmedSeq_eq {blocks : List (BlockV2 H)} {state : ChainStateV2 H}
    {sender : Address} (history : SenderHistory blocks state sender) :
    state.confirmedSeq sender = (confirmations blocks sender).length := by
  rw [confirmedSeq]
  rw [history.headRefOf_eq]
  have seqs := history.seqs
  rcases List.eq_nil_or_concat' (confirmations blocks sender) with
    nil_eq | ⟨earlier, last, concat_eq⟩
  · simp [nil_eq]
  · have last_seqs := congrArg List.getLast? seqs
    rw [concat_eq] at last_seqs ⊢
    simp only [List.map_append, List.map_cons, List.map_nil, List.length_append,
      List.length_singleton, List.range'_concat, Nat.one_mul, List.getLast?_concat,
      Option.some.injEq] at last_seqs
    simp only [List.getLast?_concat, List.length_append, List.length_singleton, last_seqs]
    omega

end Step

omit [DecidableEq H] in
theorem EntryAccepted.headRef_eq {state : ChainStateV2 H} {block : BlockV2 H}
    {entry : DiffEntry H} {sidecar : BundleSidecar} {publicKey : Bytes}
    (accepted : state.EntryAccepted block entry sidecar publicKey) (heads : HeadsMatch block)
    (member : entry ∈ block.diffPackage.diffEntries) :
    entry.newLeaf.headRef = some (entryRef block entry) := by
  obtain ⟨headRef, head_eq, bundle_eq, block_eq⟩ := accepted.headRef
  obtain ⟨height_eq, seq_eq⟩ := heads entry member headRef head_eq
  rw [head_eq]
  cases headRef
  simp_all [entryRef, accepted.bundleHash]

/-- One accepted block with matching heads keeps the history of every sender. -/
theorem SenderHistory.step {blocks : List (BlockV2 H)} {state : ChainStateV2 H} {sender : Address}
    (history : SenderHistory blocks state sender) {block : BlockV2 H}
    (accepted : state.BlockAccepted block) (heads : HeadsMatch block) :
    SenderHistory (blocks ++ [block]) (state.nextState block) sender := by
  by_cases present : sender ∈ block.diffPackage.diffEntries.map fun entry => entry.newLeaf.addr
  · obtain ⟨entry, member, rfl⟩ := List.mem_map.mp present
    obtain ⟨sidecar, publicKey, _, entry_accepted⟩ := accepted.exists_entryAccepted member
    have confirmations_eq : confirmations (blocks ++ [block]) entry.newLeaf.addr =
        confirmations blocks entry.newLeaf.addr ++ [entryRef block entry] := by
      rw [confirmations_concat, senderEntries_eq_singleton accepted.sendersNodup member]
      rfl
    have leaf_eq : (state.nextState block).accountLeaves.get? entry.newLeaf.addr =
        some entry.newLeaf :=
      get?_setAccountLeaves_of_mem _ accepted.sendersNodup member
    have seq_eq : (entryRef block entry).seq =
        1 + (confirmations blocks entry.newLeaf.addr).length := by
      have next_seq := entry_accepted.seq
      rw [history.confirmedSeq_eq] at next_seq
      simp only [entryRef]
      omega
    constructor
    · rw [confirmations_eq, List.map_append, history.seqs, List.length_append,
        List.length_singleton, List.range'_concat, Nat.one_mul, List.map_singleton, seq_eq]
    · intro missing
      rw [leaf_eq] at missing
      cases missing
    · intro leaf found
      rw [leaf_eq, Option.some.injEq] at found
      subst found
      rw [confirmations_eq, List.getLast?_concat, List.dropLast_concat]
      exact ⟨by simp, entry_accepted.headRef_eq heads member,
        entry_accepted.prevRef.trans history.headRefOf_eq⟩
  · have confirmations_eq : confirmations (blocks ++ [block]) sender =
        confirmations blocks sender := by
      simp [confirmations_concat, senderEntries_of_notMem present]
    have leaf_eq : (state.nextState block).accountLeaves.get? sender =
        state.accountLeaves.get? sender :=
      get?_setAccountLeaves_of_notMem _ present
    constructor
    · rw [confirmations_eq]
      exact history.seqs
    · rw [confirmations_eq, leaf_eq]
      exact history.unknown
    · rw [confirmations_eq, leaf_eq]
      exact history.leaf

/-! ## Envelopes -/

section Envelopes

omit [DecidableEq H]

/-- The envelope of an entry names the hash of a bundle of the entry's account. -/
def HasBody (entry : DiffEntry H) : Prop :=
  ∃ sidecar : BundleSidecar, sidecar.senderAddr = entry.newLeaf.addr ∧
    entry.bundleEnvelope.bundleHash = computeBundleHash sidecar

/-- An envelope belongs to one account. -/
theorem HasBody.addr_eq (ideal : IdealHash H) {left right : DiffEntry H} (left_body : HasBody left)
    (right_body : HasBody right) (envelope_eq : left.bundleEnvelope = right.bundleEnvelope) :
    left.newLeaf.addr = right.newLeaf.addr := by
  obtain ⟨sidecar, sender_eq, hash_eq⟩ := left_body
  obtain ⟨sidecar', sender_eq', hash_eq'⟩ := right_body
  have body_eq : sidecar = sidecar' := by
    apply computeBundleHash_injective ideal
    rw [← hash_eq, ← hash_eq', envelope_eq]
  rw [← sender_eq, ← sender_eq', body_eq]

theorem BlockAccepted.hasBody {state : ChainStateV2 H} {block : BlockV2 H}
    (accepted : state.BlockAccepted block) {entry : DiffEntry H}
    (member : entry ∈ block.diffPackage.diffEntries) : HasBody entry := by
  obtain ⟨sidecar, _, _, entry_accepted⟩ := accepted.exists_entryAccepted member
  exact ⟨sidecar, entry_accepted.sender, entry_accepted.envelopeHash⟩

theorem BlockAccepted.nodup_envelopes (ideal : IdealHash H) {state : ChainStateV2 H}
    {block : BlockV2 H} (accepted : state.BlockAccepted block) :
    (block.diffPackage.diffEntries.map DiffEntry.bundleEnvelope).Nodup := by
  refine List.Nodup.map_on ?_ (accepted.sendersNodup.of_map _)
  intro left left_mem right right_mem envelope_eq
  apply List.inj_on_of_nodup_map accepted.sendersNodup left_mem right_mem
  exact (accepted.hasBody left_mem).addr_eq ideal (accepted.hasBody right_mem) envelope_eq

end Envelopes

omit [Crypto H] [DecidableEq H] in
/-- Confirmed seqs of a sender do not exceed their number. -/
theorem SenderHistory.seq_le {blocks : List (BlockV2 H)} {state : ChainStateV2 H}
    {sender : Address} (history : SenderHistory blocks state sender) {ref : BundleRef H}
    (member : ref ∈ confirmations blocks sender) :
    ref.seq ≤ (confirmations blocks sender).length := by
  have seq_mem := List.mem_map_of_mem (f := BundleRef.seq) member
  rw [history.seqs, List.mem_range'] at seq_mem
  obtain ⟨index, index_lt, seq_eq⟩ := seq_mem
  omega

/-- One accepted block with matching heads keeps the history. -/
theorem History.step (ideal : IdealHash H) {blocks : List (BlockV2 H)} {state : ChainStateV2 H}
    (history : History blocks state)
    (bodies : ∀ block ∈ blocks, ∀ entry ∈ block.diffPackage.diffEntries, HasBody entry)
    {block : BlockV2 H} (accepted : state.BlockAccepted block) (heads : HeadsMatch block) :
    History (blocks ++ [block]) (state.nextState block) := by
  refine ⟨fun sender => (history.senders sender).step accepted heads, ?_⟩
  rw [confirmedEnvelopes_concat]
  refine List.nodup_append.mpr ⟨history.once, accepted.nodup_envelopes ideal, ?_⟩
  -- An envelope confirmed before has a seq that its account has already passed.
  rintro envelope earlier _ later rfl
  obtain ⟨entry, member, rfl⟩ := List.mem_map.mp later
  obtain ⟨old_block, old_block_mem, old_mem⟩ := List.mem_flatMap.mp earlier
  obtain ⟨old_entry, old_member, envelope_eq⟩ := List.mem_map.mp old_mem
  have addr_eq := (bodies old_block old_block_mem old_entry old_member).addr_eq ideal
    (accepted.hasBody member) envelope_eq
  have old_ref_mem : entryRef old_block old_entry ∈ confirmations blocks entry.newLeaf.addr := by
    refine List.mem_flatMap.mpr ⟨old_block, old_block_mem, List.mem_map_of_mem ?_⟩
    exact List.mem_filter.mpr ⟨old_member, decide_eq_true addr_eq⟩
  have old_seq_le := (history.senders entry.newLeaf.addr).seq_le old_ref_mem
  obtain ⟨_, _, _, entry_accepted⟩ := accepted.exists_entryAccepted member
  have new_seq := entry_accepted.seq
  rw [(history.senders entry.newLeaf.addr).confirmedSeq_eq] at new_seq
  simp only [entryRef, envelope_eq] at old_seq_le
  omega

/-! ## Runs -/

theorem hasBody_of_applyBlocks {initial final : ChainStateV2 H} {blocks : List (BlockV2 H)}
    (applied : initial.applyBlocks blocks = .ok final) :
    ∀ block ∈ blocks, ∀ entry ∈ block.diffPackage.diffEntries, HasBody entry := by
  refine applyBlocks_induction (motive := fun blocks _ =>
    ∀ block ∈ blocks, ∀ entry ∈ block.diffPackage.diffEntries, HasBody entry) (by simp) ?_ applied
  intro blocks state block _ earlier accepted other other_mem
  rcases List.mem_append.mp other_mem with other_mem | other_mem
  · exact earlier other other_mem
  · obtain rfl := List.mem_singleton.mp other_mem
    exact fun entry member => accepted.hasBody member

omit [Crypto H] [DecidableEq H] in
theorem history_nil (version chainId receiptCacheBlocks maxBundleBytes maxTxPerBundle
    maxValueEntriesPerTx : ℕ) (genesisBlockHash : H) :
    History [] (new version chainId receiptCacheBlocks maxBundleBytes maxTxPerBundle
      maxValueEntriesPerTx genesisBlockHash) :=
  ⟨fun _ => ⟨rfl, fun _ => rfl, fun _ found => by cases found⟩, List.nodup_nil⟩

theorem history_of_headsMatch (ideal : IdealHash H) {initial final : ChainStateV2 H}
    (empty : History [] initial) {blocks : List (BlockV2 H)}
    (applied : initial.applyBlocks blocks = .ok final)
    (heads : ∀ block ∈ blocks, HeadsMatch block) :
    History blocks final := by
  refine applyBlocks_induction (motive := fun blocks state =>
    (∀ block ∈ blocks, HeadsMatch block) → History blocks state) (fun _ => empty) ?_ applied heads
  intro blocks state block earlier history accepted heads
  have earlier_heads : ∀ other ∈ blocks, HeadsMatch other :=
    fun other other_mem => heads other (List.mem_append_left _ other_mem)
  exact (history earlier_heads).step ideal (hasBody_of_applyBlocks earlier) accepted
    (heads block (by simp))

theorem headsMatch_of_history {blocks : List (BlockV2 H)} {state : ChainStateV2 H}
    {block : BlockV2 H} (accepted : state.BlockAccepted block)
    (history : History (blocks ++ [block]) (state.nextState block)) : HeadsMatch block := by
  intro entry member headRef head_eq
  have leaf_eq : (state.nextState block).accountLeaves.get? entry.newLeaf.addr =
      some entry.newLeaf :=
    get?_setAccountLeaves_of_mem _ accepted.sendersNodup member
  have last_eq := ((history.senders entry.newLeaf.addr).leaf _ leaf_eq).2.1
  rw [confirmations_concat, senderEntries_eq_singleton accepted.sendersNodup member,
    List.map_singleton, List.getLast?_concat, head_eq, Option.some.injEq] at last_eq
  exact ⟨congrArg BundleRef.height last_eq, congrArg BundleRef.seq last_eq⟩

/-- Along a chain applied from genesis, the history holds at every height exactly when the heads
of all blocks carry the block's height and the envelope's seq. -/
theorem history_iff_headsMatch (ideal : IdealHash H) (version chainId receiptCacheBlocks
    maxBundleBytes maxTxPerBundle maxValueEntriesPerTx : ℕ) (genesisBlockHash : H)
    (blocks : List (BlockV2 H)) (final : ChainStateV2 H)
    (applied : (new version chainId receiptCacheBlocks maxBundleBytes maxTxPerBundle
      maxValueEntriesPerTx genesisBlockHash).applyBlocks blocks = .ok final) :
    (∀ earlier state, earlier <+: blocks →
      (new version chainId receiptCacheBlocks maxBundleBytes maxTxPerBundle
        maxValueEntriesPerTx genesisBlockHash).applyBlocks earlier = .ok state →
      History earlier state) ↔ ∀ block ∈ blocks, HeadsMatch block := by
  constructor
  · intro history block member
    obtain ⟨before, after, rfl⟩ := List.append_of_mem member
    rw [← List.singleton_append, ← List.append_assoc, applyBlocks_append_eq_ok] at applied
    obtain ⟨state, reached, _⟩ := applied
    obtain ⟨previous, _, accepted, rfl⟩ := (applyBlocks_concat_eq_ok _ _ _ _).mp reached
    exact headsMatch_of_history accepted
      (history _ _ ⟨after, by simp⟩ reached)
  · rintro heads earlier state ⟨later, rfl⟩ reached
    exact history_of_headsMatch ideal (history_nil _ _ _ _ _ _ _) reached
      fun block member => heads block (List.mem_append_left later member)

/-! ## A bundle confirmed twice -/

section Replay

open SymbolicDigest

/-- Alice's second bundle. -/
def secondBundle : BundleSidecar := transferBundle alice carol ⟨10, 19, by decide⟩

/-- Alice's second bundle, with seq 1 written into the head of her leaf. -/
def rewoundEntry : PeerEntry SymbolicDigest :=
  { honestEntry afterFirst (signedEnvelope secondBundle 2 Nat.two_pos [1]) secondBundle [1] with
    headSeq := 1
    headSeq_pos := Nat.one_pos }

/-- The chain after the rewound head. -/
def afterRewound : ChainStateV2 SymbolicDigest :=
  afterFirst.nextState (afterFirst.peerBlock 2 rewoundEntry)

/-- Alice's second bundle once more. -/
def replayedEntry : PeerEntry SymbolicDigest :=
  honestEntry afterRewound (signedEnvelope secondBundle 2 (by decide) [1]) secondBundle [1]

theorem rewoundEntry_valid : PeerEntryValid afterFirst rewoundEntry where
  signer := rfl
  bundleHash := rfl
  claimSet := .inl rfl
  signature := by decide
  notExpired := by decide
  prevRef := rfl
  seq := by decide
  known := by
    rintro leaf ⟨⟩
    decide

theorem replayedEntry_valid : PeerEntryValid afterRewound replayedEntry where
  signer := rfl
  bundleHash := rfl
  claimSet := .inl rfl
  signature := by decide
  notExpired := by decide
  prevRef := rfl
  seq := by decide
  known := by
    rintro leaf ⟨⟩
    decide

/-- The history of a chain that confirms Alice's and Bob's first bundles. -/
theorem history_twoBundles :
    History [genesis.peerBlock 1 firstEntry, afterFirst.peerBlock 2 bobEntry]
      (afterFirst.nextState (afterFirst.peerBlock 2 bobEntry)) := by
  have applied : genesis.applyBlocks
      [genesis.peerBlock 1 firstEntry, afterFirst.peerBlock 2 bobEntry] =
        .ok (afterFirst.nextState (afterFirst.peerBlock 2 bobEntry)) := by
    simp only [applyBlocks_cons_eq_ok, applyBlocks_nil]
    exact ⟨peerBlock_accepted 1 firstEntry_valid, peerBlock_accepted 2 bobEntry_valid, rfl⟩
  refine (history_iff_headsMatch idealHash 2 1 32 32768 128 64 (filled 0) _ _ applied).mpr ?_ _ _
    (List.prefix_refl _) applied
  intro block member entry entry_mem headRef head_eq
  rcases List.mem_pair.mp member with rfl | rfl
  all_goals
    obtain rfl := List.mem_singleton.mp entry_mem
    cases head_eq
    exact ⟨rfl, rfl⟩

/-- A chain that rewinds Alice's head confirms her second bundle twice. -/
theorem history_replayed :
    genesis.applyBlocks [genesis.peerBlock 1 firstEntry, afterFirst.peerBlock 2 rewoundEntry,
        afterRewound.peerBlock 3 replayedEntry] =
      .ok (afterRewound.nextState (afterRewound.peerBlock 3 replayedEntry)) ∧
    ¬ History [genesis.peerBlock 1 firstEntry, afterFirst.peerBlock 2 rewoundEntry,
        afterRewound.peerBlock 3 replayedEntry]
      (afterRewound.nextState (afterRewound.peerBlock 3 replayedEntry)) := by
  constructor
  · simp only [applyBlocks_cons_eq_ok, applyBlocks_nil]
    exact ⟨peerBlock_accepted 1 firstEntry_valid, peerBlock_accepted 2 rewoundEntry_valid,
      peerBlock_accepted 3 replayedEntry_valid, rfl⟩
  · intro history
    have once := history.once
    simp [confirmedEnvelopes, peerBlock, PeerEntry.diffEntry, rewoundEntry, replayedEntry,
      honestEntry] at once

end Replay

end ChainStateV2

end EZChain
