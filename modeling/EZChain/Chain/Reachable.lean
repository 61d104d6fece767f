import EZChain.Chain.Execution
import EZChain.Chain.PeerBlock

/-!
# Reachable chain states

A host's state changes by submitting bundles, building blocks and applying blocks of peers.  In
every reachable state the known accounts have heads, and every pending bundle passed the checks
of the pool and follows the confirmed seq of its sender.
-/

namespace EZChain

open Checks

namespace ChainStateV2

variable {H : Type} [Crypto H] [DecidableEq H]

/-- One call on the chain state. -/
inductive ChainAction (H : Type) where
  | submitBundle (submission : BundleSubmission H)
  | buildBlock (timestamp : ℕ) (proposerSig consensusExtra : Bytes) (limit : Option ℤ)
  | applyBlock (block : BlockV2 H)

/-- The state after a call, whether or not the call raised. -/
def step (state : ChainStateV2 H) : ChainAction H → ChainStateV2 H
  | .submitBundle submission =>
      match state.submitBundle submission with
      | .ok next => next
      | .error _ => state
  | .buildBlock timestamp proposerSig consensusExtra limit =>
      (state.buildBlock timestamp proposerSig consensusExtra limit).2
  | .applyBlock block => (state.applyBlock block).2

theorem step_applyBlock {state : ChainStateV2 H} {block : BlockV2 H}
    (accepted : state.BlockAccepted block) :
    state.step (.applyBlock block) = state.nextState block :=
  congrArg Prod.snd (applyBlock_of_accepted accepted)

/-- The state after a sequence of calls. -/
def run (state : ChainStateV2 H) (actions : List (ChainAction H)) : ChainStateV2 H :=
  actions.foldl step state

theorem run_applyBlock {state : ChainStateV2 H} {block : BlockV2 H}
    (accepted : state.BlockAccepted block) (rest : List (ChainAction H)) :
    state.run (.applyBlock block :: rest) = (state.nextState block).run rest := by
  rw [run, List.foldl_cons, step_applyBlock accepted, ← run]

/-- What holds of the leaves and the pool of every reachable state. -/
structure WellFormed (state : ChainStateV2 H) : Prop where
  /-- Leaves are stored under their own address, which is the address of a key, and have heads. -/
  leaves : ∀ addr leaf, state.accountLeaves.get? addr = some leaf →
    leaf.addr = addr ∧ leaf.headRef ≠ none ∧ IsAccount H addr
  /-- Pending bundles are stored under their sender and are ready. -/
  pool : ∀ addr submission, state.bundlePool.pendingBySender.get? addr = some submission →
    submission.sidecar.senderAddr = addr ∧ state.SubmissionReady submission

omit [DecidableEq H] in
theorem WellFormed.leavesHaveHeads {state : ChainStateV2 H} (wellFormed : state.WellFormed) :
    state.LeavesHaveHeads :=
  fun addr leaf found => (wellFormed.leaves addr leaf found).2.1

omit [DecidableEq H] in
theorem wellFormed_new (version chainId receiptCacheBlocks maxBundleBytes maxTxPerBundle
    maxValueEntriesPerTx : ℕ) (genesisBlockHash : H) :
    (new version chainId receiptCacheBlocks maxBundleBytes maxTxPerBundle maxValueEntriesPerTx
      genesisBlockHash : ChainStateV2 H).WellFormed :=
  ⟨by nofun, by nofun⟩

/-! ## Submitting -/

/-- A bundle that enters the pool is ready for the sender's next seq, or repeats the pending one. -/
theorem submit_eq_ok {pool pool' : BundlePool H} {submission : BundleSubmission H}
    {currentHeight confirmedSeq : ℕ}
    (submitted : pool.submit submission currentHeight confirmedSeq = .ok pool') :
    ∃ senderAddr, Crypto.addressFromPublicKeyPem H submission.senderPublicKeyPem = .ok senderAddr ∧
      submission.sidecar.senderAddr = senderAddr ∧
      submission.envelope.bundleHash = computeBundleHash submission.sidecar ∧
      (submission.envelope.claimSetHash = none ∨ submission.envelope.claimSetHash =
        some (claimRangeSetHash (claimRangeSetFromSidecar submission.sidecar))) ∧
      verifyBundleEnvelope submission.envelope submission.senderPublicKeyPem = true ∧
      (submission.envelope.seq = confirmedSeq + 1 ∨
        ∃ existing, pool.pendingBySender.get? senderAddr = some existing ∧
          existing.envelope.seq = submission.envelope.seq) ∧
      (pool' = pool ∨
        pool' =
          { pool with pendingBySender := pool.pendingBySender.set senderAddr submission }) := by
  simp only [BundlePool.submit, BundlePool.checkSubmission, bind_eq_ok, require_eq_ok,
    exists_const, pure_eq_ok] at submitted
  obtain ⟨senderAddr, ⟨signer, signer_eq, _, sender_eq, _, hash_eq, claims, signed, _, _, _, rfl⟩,
    executable, stored⟩ := submitted
  refine ⟨signer, signer_eq, sender_eq, hash_eq.symm, claims, signed, ?_, ?_⟩
  · rcases executable with next_seq | pending
    · exact Or.inl next_seq
    · obtain ⟨existing, found, seq_eq⟩ := Option.map_eq_some_iff.mp pending
      exact Or.inr ⟨existing, found, seq_eq⟩
  · cases found : pool.pendingBySender.get? signer with
    | none =>
        simp only [found, pure_eq_ok] at stored
        exact Or.inr stored.symm
    | some existing =>
        simp only [found, bind_eq_ok, require_eq_ok, exists_const] at stored
        obtain ⟨_, _, stored⟩ := stored
        split at stored
        · exact Or.inl (Except.ok.inj stored).symm
        · simp only [bind_eq_ok, require_eq_ok, exists_const, pure_eq_ok] at stored
          exact Or.inr stored.2.symm

theorem WellFormed.submitBundle {state next : ChainStateV2 H} (wellFormed : state.WellFormed)
    {submission : BundleSubmission H} (submitted : state.submitBundle submission = .ok next) :
    next.WellFormed := by
  simp only [ChainStateV2.submitBundle, bind_eq_ok, pure_eq_ok] at submitted
  obtain ⟨signer, signer_eq, pool', pool_submitted, rfl⟩ := submitted
  obtain ⟨senderAddr, sender_eq, sidecar_eq, hash_eq, claims, signed, executable, stored⟩ :=
    submit_eq_ok pool_submitted
  obtain rfl : signer = senderAddr := Except.ok.inj (signer_eq.symm.trans sender_eq)
  refine ⟨wellFormed.leaves, ?_⟩
  rcases stored with rfl | rfl
  · exact wellFormed.pool
  · intro addr pending found
    simp only [OrderedDict.get?_set] at found
    split at found
    · next addr_eq =>
        cases found
        subst addr_eq
        refine ⟨sidecar_eq, sidecar_eq ▸ signer_eq, hash_eq, claims, signed, ?_⟩
        rw [sidecar_eq]
        rcases executable with next_seq | ⟨existing, existing_found, seq_eq⟩
        · exact next_seq
        · obtain ⟨existing_sender, existing_ready⟩ := wellFormed.pool signer existing existing_found
          rw [← seq_eq, existing_ready.seq, existing_sender]
          rfl
    · obtain ⟨pending_sender, ready⟩ := wellFormed.pool addr pending found
      exact ⟨pending_sender, ready.signer, ready.bundleHash, ready.claimSet, ready.signature,
        ready.seq⟩

/-! ## Removing confirmed bundles -/

section Removal

omit [Crypto H]

theorem get?_removeFinalizedBundle {pool : BundlePool H} {senderAddr addr : Address} {seq : ℕ}
    {bundleHash : H} {submission : BundleSubmission H}
    (found : (pool.removeFinalizedBundle senderAddr seq bundleHash).pendingBySender.get? addr =
      some submission) :
    pool.pendingBySender.get? addr = some submission ∧
      (senderAddr = addr → seq < submission.envelope.seq) := by
  rw [BundlePool.removeFinalizedBundle] at found
  cases existing_eq : pool.pendingBySender.get? senderAddr with
  | none =>
      simp only [existing_eq] at found
      refine ⟨found, fun addr_eq => ?_⟩
      rw [← addr_eq, existing_eq] at found
      cases found
  | some existing =>
      simp only [existing_eq] at found
      split at found
      · next later =>
          refine ⟨found, fun addr_eq => ?_⟩
          rw [← addr_eq, existing_eq, Option.some.injEq] at found
          exact found ▸ later
      · next not_later =>
          have removed : existing.envelope.seq < seq ∨ existing.envelope.bundleHash = bundleHash ∨
              existing.envelope.seq = seq := by omega
          rw [if_pos removed, OrderedDict.get?_erase] at found
          split at found
          · cases found
          · next addr_ne => exact ⟨found, fun addr_eq => absurd addr_eq addr_ne⟩

theorem get?_foldl_removeFinalizedBundle {α : Type} (removals : List α) (sender : α → Address)
    (seq : α → ℕ) (hash : α → H) (pool : BundlePool H) {addr : Address}
    {submission : BundleSubmission H}
    (found : (removals.foldl (fun pool removal =>
      pool.removeFinalizedBundle (sender removal) (seq removal) (hash removal))
        pool).pendingBySender.get? addr = some submission) :
    pool.pendingBySender.get? addr = some submission ∧
      ∀ removal ∈ removals, sender removal = addr → seq removal < submission.envelope.seq := by
  induction removals generalizing pool with
  | nil => exact ⟨found, by simp⟩
  | cons removal removals induction =>
      obtain ⟨kept, later⟩ := induction _ found
      obtain ⟨pending, first⟩ := get?_removeFinalizedBundle kept
      exact ⟨pending, List.forall_mem_cons.mpr ⟨first, later⟩⟩

theorem get?_foldl_removeFinalizedBundle_of_ne {α : Type} (removals : List α)
    (sender : α → Address) (seq : α → ℕ) (hash : α → H) (pool : BundlePool H) {addr : Address}
    (others : ∀ removal ∈ removals, sender removal ≠ addr) :
    (removals.foldl (fun pool removal =>
      pool.removeFinalizedBundle (sender removal) (seq removal) (hash removal))
        pool).pendingBySender.get? addr = pool.pendingBySender.get? addr := by
  induction removals generalizing pool with
  | nil => rfl
  | cons removal removals induction =>
      obtain ⟨other, others⟩ := List.forall_mem_cons.mp others
      rw [List.foldl_cons, induction _ others, BundlePool.removeFinalizedBundle]
      split
      · rfl
      · split_ifs
        · rfl
        · exact (OrderedDict.get?_erase _ _ _).trans (if_neg other)
        · rfl

end Removal

/-! ## Extending the chain -/

section Extend

omit [DecidableEq H]

omit [Crypto H] in
theorem get?_setAccountLeaves_eq_some {leaves : OrderedDict Address (AccountLeaf H)}
    {entries : List (DiffEntry H)} {addr : Address} {leaf : AccountLeaf H}
    (found : (setAccountLeaves leaves entries).get? addr = some leaf) :
    (∃ entry ∈ entries, entry.newLeaf = leaf ∧ leaf.addr = addr) ∨
      (∀ entry ∈ entries, entry.newLeaf.addr ≠ addr) ∧ leaves.get? addr = some leaf := by
  rcases OrderedDict.get?_setAll_eq_some leaves found with member | ⟨absent, earlier⟩
  · obtain ⟨entry, entry_mem, pair_eq⟩ := List.mem_map.mp member
    obtain ⟨rfl, rfl⟩ := Prod.mk.inj pair_eq
    exact Or.inl ⟨entry, entry_mem, rfl, rfl⟩
  · refine Or.inr ⟨fun entry entry_mem addr_eq => absent ?_, earlier⟩
    rw [List.map_map]
    exact List.mem_map.mpr ⟨entry, entry_mem, addr_eq⟩

/-- Facts about the entries of a block that the next state's well-formedness rests on. -/
structure EntriesSound (entries : List (DiffEntry H)) : Prop where
  heads : ∀ entry ∈ entries, entry.newLeaf.headRef ≠ none
  accounts : ∀ entry ∈ entries, IsAccount H entry.newLeaf.addr

/-- Writing sound entries and keeping only pending bundles of other senders is well formed. -/
theorem WellFormed.extend {state next : ChainStateV2 H} (wellFormed : state.WellFormed)
    {entries : List (DiffEntry H)} (sound : EntriesSound entries)
    (leaves_eq : next.accountLeaves = setAccountLeaves state.accountLeaves entries)
    (pool_kept : ∀ addr submission, next.bundlePool.pendingBySender.get? addr = some submission →
      state.bundlePool.pendingBySender.get? addr = some submission ∧
        ∀ entry ∈ entries, entry.newLeaf.addr ≠ addr) : next.WellFormed := by
  constructor
  · intro addr leaf found
    rw [leaves_eq] at found
    rcases get?_setAccountLeaves_eq_some found with ⟨entry, member, rfl, rfl⟩ | ⟨_, earlier⟩
    · exact ⟨rfl, sound.heads entry member, sound.accounts entry member⟩
    · exact wellFormed.leaves addr leaf earlier
  · intro addr submission found
    obtain ⟨pending, others⟩ := pool_kept addr submission found
    obtain ⟨sender_eq, ready⟩ := wellFormed.pool addr submission pending
    have leaf_eq : next.accountLeaves.get? addr = state.accountLeaves.get? addr := by
      rw [leaves_eq]
      apply get?_setAccountLeaves_of_notMem
      intro written
      obtain ⟨entry, member, addr_eq⟩ := List.mem_map.mp written
      exact others entry member addr_eq
    have seq_eq : next.confirmedSeq submission.sidecar.senderAddr =
        state.confirmedSeq submission.sidecar.senderAddr := by
      simp only [confirmedSeq, headRefOf, sender_eq, leaf_eq]
    exact ⟨sender_eq, ready.signer, ready.bundleHash, ready.claimSet, ready.signature,
      seq_eq ▸ ready.seq⟩

theorem BlockAccepted.entriesSound {state : ChainStateV2 H} {block : BlockV2 H}
    (accepted : state.BlockAccepted block) : EntriesSound block.diffPackage.diffEntries := by
  constructor
  · intro entry member
    obtain ⟨_, _, _, entry_accepted⟩ := accepted.exists_entryAccepted member
    obtain ⟨headRef, head_eq, _⟩ := entry_accepted.headRef
    simp [head_eq]
  · intro entry member
    obtain ⟨_, publicKey, _, entry_accepted⟩ := accepted.exists_entryAccepted member
    exact ⟨publicKey, entry_accepted.signer⟩

end Extend

theorem WellFormed.nextState {state : ChainStateV2 H} (wellFormed : state.WellFormed)
    {block : BlockV2 H} (accepted : state.BlockAccepted block) :
    (state.nextState block).WellFormed := by
  refine wellFormed.extend accepted.entriesSound rfl fun addr submission found => ?_
  obtain ⟨pending, later⟩ := get?_foldl_removeFinalizedBundle block.diffPackage.diffEntries
    (fun entry => entry.newLeaf.addr) (fun entry => entry.bundleEnvelope.seq)
    DiffEntry.bundleHash state.bundlePool found
  refine ⟨pending, fun entry member addr_eq => ?_⟩
  obtain ⟨_, _, _, entry_accepted⟩ := accepted.exists_entryAccepted member
  obtain ⟨sender_eq, ready⟩ := wellFormed.pool addr submission pending
  have entry_seq := entry_accepted.seq
  have pending_seq := ready.seq
  have above := later entry member addr_eq
  rw [sender_eq, ← addr_eq] at pending_seq
  omega

/-! ## Building -/

section Snapshot

omit [DecidableEq H]

theorem sliceTo_sublist {α : Type} (items : List α) (limit : Option ℤ) :
    (sliceTo items limit).Sublist items := by
  cases limit with
  | none => exact List.Sublist.refl items
  | some limit => exact List.take_sublist _ _

theorem perm_snapshot (pool : BundlePool H) (limit : Option ℤ) :
    ∃ packed, (pool.snapshot limit).Sublist packed ∧ packed.Perm pool.pendingBySender.values :=
  ⟨_, sliceTo_sublist _ limit, List.perm_insertionSort _ _⟩

theorem mem_snapshot {pool : BundlePool H} {limit : Option ℤ} {submission : BundleSubmission H}
    (member : submission ∈ pool.snapshot limit) :
    ∃ addr, pool.pendingBySender.get? addr = some submission := by
  obtain ⟨packed, sublist, perm⟩ := perm_snapshot pool limit
  exact (OrderedDict.mem_values_iff _ _).mp (perm.mem_iff.mp (sublist.mem member))

/-- The packed bundles of a well-formed state are ready. -/
theorem WellFormed.snapshot_ready {state : ChainStateV2 H} (wellFormed : state.WellFormed)
    (limit : Option ℤ) : state.SubmissionsReady (state.bundlePool.snapshot limit) := by
  constructor
  · intro submission member
    obtain ⟨addr, pending⟩ := mem_snapshot member
    exact (wellFormed.pool addr submission pending).2
  · obtain ⟨packed, sublist, perm⟩ := perm_snapshot state.bundlePool limit
    have senders_eq : state.bundlePool.pendingBySender.values.map
        (fun submission => submission.sidecar.senderAddr) =
          state.bundlePool.pendingBySender.keys := by
      rw [OrderedDict.values, OrderedDict.keys, List.map_map]
      apply List.map_congr_left
      intro entry member
      have pending := (OrderedDict.get?_eq_some_iff _ entry.1 entry.2).mpr member
      exact (wellFormed.pool entry.1 entry.2 pending).1
    have values_nodup : (state.bundlePool.pendingBySender.values.map
        fun submission => submission.sidecar.senderAddr).Nodup := by
      rw [senders_eq]
      exact state.bundlePool.pendingBySender.nodup
    exact ((perm.map _).nodup_iff.mpr values_nodup).sublist (sublist.map _)

end Snapshot

/-- The block that a build returns. -/
def builtBlock (state : ChainStateV2 H) (timestamp : ℕ) (proposerSig consensusExtra : Bytes)
    (limit : Option ℤ) : BlockV2 H :=
  state.executedBlock (state.bundlePool.snapshot limit) timestamp proposerSig consensusExtra

omit [DecidableEq H] in
theorem WellFormed.entriesSound_builtBlock {state : ChainStateV2 H} (wellFormed : state.WellFormed)
    (timestamp : ℕ) (proposerSig consensusExtra : Bytes) (limit : Option ℤ) :
    EntriesSound
      (state.builtBlock timestamp proposerSig consensusExtra limit).diffPackage.diffEntries := by
  have ready := (wellFormed.snapshot_ready limit).sorted
  rw [builtBlock, diffEntries_executedBlock]
  constructor
  · intro entry member
    obtain ⟨submission, _, rfl⟩ := List.mem_map.mp member
    exact Option.some_ne_none _
  · intro entry member
    obtain ⟨submission, submission_mem, rfl⟩ := List.mem_map.mp member
    exact ⟨_, (ready.ready submission submission_mem).signer⟩

theorem WellFormed.buildBlock {state : ChainStateV2 H} (wellFormed : state.WellFormed)
    (timestamp : ℕ) (proposerSig consensusExtra : Bytes) (limit : Option ℤ) :
    (state.buildBlock timestamp proposerSig consensusExtra limit).2.WellFormed := by
  have sound := wellFormed.entriesSound_builtBlock timestamp proposerSig consensusExtra limit
  rw [ChainStateV2.buildBlock, executeSubmissions_eq]
  refine wellFormed.extend sound rfl fun addr submission found => ?_
  obtain ⟨pending, later⟩ := get?_foldl_removeFinalizedBundle (state.bundlePool.snapshot limit)
    (fun submission => submission.sidecar.senderAddr) (fun submission => submission.envelope.seq)
    (fun submission => submission.envelope.bundleHash) state.bundlePool found
  refine ⟨pending, fun entry member addr_eq => ?_⟩
  rw [builtBlock, diffEntries_executedBlock] at member
  obtain ⟨packed, packed_mem, rfl⟩ := List.mem_map.mp member
  have packed_mem := (perm_sortSubmissions _).mem_iff.mp packed_mem
  have packed_seq := ((wellFormed.snapshot_ready limit).ready packed packed_mem).seq
  obtain ⟨sender_eq, ready⟩ := wellFormed.pool addr submission pending
  have pending_seq := ready.seq
  have above := later packed packed_mem addr_eq
  rw [sender_eq, ← addr_eq] at pending_seq
  simp only [prepareEntry] at pending_seq
  omega

/-! ## Runs -/

theorem WellFormed.step {state : ChainStateV2 H} (wellFormed : state.WellFormed)
    (action : ChainAction H) : (state.step action).WellFormed := by
  cases action with
  | submitBundle submission =>
      cases submitted : state.submitBundle submission with
      | error message => simpa only [ChainStateV2.step, submitted] using wellFormed
      | ok next => simpa only [ChainStateV2.step, submitted] using wellFormed.submitBundle submitted
  | buildBlock timestamp proposerSig consensusExtra limit =>
      exact wellFormed.buildBlock timestamp proposerSig consensusExtra limit
  | applyBlock block =>
      by_cases accepted : state.BlockAccepted block
      · rw [step_applyBlock accepted]
        exact wellFormed.nextState accepted
      · obtain ⟨message, raised⟩ := applyBlock_of_not_accepted accepted
        simpa only [ChainStateV2.step, raised] using wellFormed

/-- Every state reached from a well-formed state is well formed. -/
theorem WellFormed.run {state : ChainStateV2 H} (wellFormed : state.WellFormed)
    (actions : List (ChainAction H)) : (state.run actions).WellFormed := by
  induction actions generalizing state with
  | nil => exact wellFormed
  | cons action actions induction => exact induction (wellFormed.step action)

end ChainStateV2

end EZChain
