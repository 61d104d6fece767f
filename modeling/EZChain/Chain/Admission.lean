import EZChain.CanonicalBytes
import EZChain.Chain.Reachable
import EZChain.Library.Runs

/-!
# Admission and execution of bundles

A bundle is checked when it enters the pool and again when a block that packs it is applied.  The
two checks differ in the chain id of the envelope, the size limits and the height that the expiry
height is compared with, so an accepted block may carry bundles that the pool refuses, and the
pool may hold bundles that no next block can carry.
-/

namespace EZChain

open Checks

/-! ## Admission to an empty pool -/

namespace BundlePool

variable {H : Type} [Crypto H]

/-- The pool without its pending bundles. -/
def emptied (pool : BundlePool H) : BundlePool H := { pool with pendingBySender := ∅ }

/-- The size limits of a pool. -/
structure WithinLimits (pool : BundlePool H) (sidecar : BundleSidecar) : Prop where
  bytes : (sidecar.canonicalize : Canon H).encodedLength ≤ pool.maxBundleBytes
  txCount : sidecar.txList.length ≤ pool.maxTxPerBundle
  valueEntries : ∀ tx ∈ sidecar.txList, tx.valueList.length ≤ pool.maxValueEntriesPerTx

variable [DecidableEq H]

theorem exists_submit_emptied_iff {pool : BundlePool H} {submission : BundleSubmission H}
    {currentHeight confirmedSeq : ℕ} :
    (∃ next, pool.emptied.submit submission currentHeight confirmedSeq = .ok next) ↔
      (∃ senderAddr, pool.checkSubmission submission currentHeight = .ok senderAddr) ∧
        submission.envelope.seq = confirmedSeq + 1 := by
  have absent : ∀ senderAddr, pool.emptied.pendingBySender.get? senderAddr = none :=
    fun _ => OrderedDict.get?_empty _
  have same_checks : pool.emptied.checkSubmission submission currentHeight =
      pool.checkSubmission submission currentHeight := rfl
  simp only [submit, bind_eq_ok, same_checks, absent, require_eq_ok, exists_const, pure_eq_ok,
    Option.map_none, reduceCtorEq, or_false]
  constructor
  · rintro ⟨_, senderAddr, checked, seq_eq, _⟩
    exact ⟨⟨senderAddr, checked⟩, seq_eq⟩
  · rintro ⟨⟨senderAddr, checked⟩, seq_eq⟩
    exact ⟨_, senderAddr, checked, seq_eq, rfl⟩

theorem length_le_of_checkSubmission {pool : BundlePool H} {submission : BundleSubmission H}
    {currentHeight : ℕ} {senderAddr : Address} {word : Bytes}
    (checked : pool.checkSubmission submission currentHeight = .ok senderAddr)
    (encodes : encodeValue ((submission.sidecar.canonicalize : Canon H).normal fun digest =>
      (Crypto.digestBytes digest).bytes) = .ok word) : word.length ≤ pool.maxBundleBytes := by
  simp only [checkSubmission, bind_eq_ok, require_eq_ok, exists_const] at checked
  obtain ⟨_, _, _, _, _, _, _, _, bytes, _⟩ := checked
  have length_eq := length_encodeValue_normal
    (fun digest => (Crypto.digestBytes digest).length_eq) _ encodes
  exact length_eq.trans_le bytes

end BundlePool

namespace ChainStateV2

variable {H : Type} [Crypto H] [DecidableEq H]

/-- The pool of the state, once emptied, takes a bundle of a block. -/
def Admissible (state : ChainStateV2 H) (item : DiffEntry H × BundleSidecar × Bytes) : Prop :=
  ∃ next, { state with bundlePool := state.bundlePool.emptied }.submitBundle
    ⟨item.1.bundleEnvelope, item.2.1, item.2.2⟩ = .ok next

/-- What `submit` checks and `apply_block` does not. -/
def MeetsPoolRules (state : ChainStateV2 H) (item : DiffEntry H × BundleSidecar × Bytes) : Prop :=
  item.1.bundleEnvelope.chainId = state.bundlePool.chainId ∧
    state.bundlePool.WithinLimits item.2.1

/-- An entry that passed `apply_block` is admissible exactly when it meets the remaining rules of
the pool. -/
theorem EntryAccepted.admissible_iff {state : ChainStateV2 H} {block : BlockV2 H}
    {entry : DiffEntry H} {sidecar : BundleSidecar} {publicKey : Bytes}
    (height_eq : block.header.height = state.currentHeight + 1)
    (accepted : state.EntryAccepted block entry sidecar publicKey) :
    state.Admissible (entry, sidecar, publicKey) ↔
      state.MeetsPoolRules (entry, sidecar, publicKey) := by
  have alive : state.currentHeight ≤ entry.bundleEnvelope.expiryHeight := by
    have not_expired := accepted.notExpired
    omega
  have seq_eq : ∀ senderAddr, Crypto.addressFromPublicKeyPem H publicKey = .ok senderAddr →
      entry.bundleEnvelope.seq = state.confirmedSeq senderAddr + 1 := by
    intro senderAddr derived
    obtain rfl : entry.newLeaf.addr = senderAddr :=
      Except.ok.inj (accepted.signer.symm.trans derived)
    exact accepted.seq
  constructor
  · rintro ⟨_, submitted⟩
    simp only [submitBundle, bind_eq_ok, pure_eq_ok] at submitted
    obtain ⟨_, _, pool, pool_submitted, _⟩ := submitted
    obtain ⟨⟨_, checked⟩, _⟩ := BundlePool.exists_submit_emptied_iff.mp ⟨pool, pool_submitted⟩
    simp only [BundlePool.checkSubmission, bind_eq_ok, require_eq_ok, exists_const,
      pure_eq_ok] at checked
    obtain ⟨_, _, chain_eq, _, _, _, _, _, bytes, tx_count, value_entries, _⟩ := checked
    exact ⟨chain_eq, bytes, tx_count, value_entries⟩
  · rintro ⟨chain_eq, limits⟩
    have checked : state.bundlePool.checkSubmission ⟨entry.bundleEnvelope, sidecar, publicKey⟩
        state.currentHeight = .ok entry.newLeaf.addr := by
      simp only [BundlePool.checkSubmission, bind_eq_ok, require_eq_ok, exists_const, pure_eq_ok]
      exact ⟨_, accepted.signer, chain_eq, accepted.sender, alive, accepted.envelopeHash.symm,
        accepted.claimSet, accepted.signature, limits.bytes, limits.txCount, limits.valueEntries,
        rfl⟩
    obtain ⟨pool, submitted⟩ := BundlePool.exists_submit_emptied_iff.mpr
      ⟨⟨_, checked⟩, seq_eq _ accepted.signer⟩
    refine ⟨{ state with bundlePool := pool }, ?_⟩
    simp only [submitBundle, bind_eq_ok, pure_eq_ok]
    exact ⟨_, accepted.signer, pool, submitted, rfl⟩

/-- Every bundle of a block that `apply_block` accepts would have been admitted to an empty pool
exactly when all of them carry the pool's chain id and stay within its size limits. -/
theorem applied_admissible_iff (state next : ChainStateV2 H) (block : BlockV2 H)
    (receipts : OrderedDict Address (Receipt H))
    (applied : state.applyBlock block = (.ok receipts, next)) :
    (∀ item ∈ diffItems block, state.Admissible item) ↔
      ∀ item ∈ diffItems block, state.MeetsPoolRules item := by
  obtain ⟨accepted, _, _⟩ := (applyBlock_eq_ok_iff _ _ _ _).mp applied
  exact forall₂_congr fun item member =>
    (accepted.entries item member).admissible_iff accepted.height

/-! ## Bundles that wait in the pool -/

/-- The bundles that wait in the pool. -/
def pending (state : ChainStateV2 H) : List (BundleSubmission H) :=
  state.bundlePool.pendingBySender.values

/-- A block that packs the bundle alone on top of the state is applied. -/
def ExecutableAlone (state : ChainStateV2 H) (submission : BundleSubmission H) : Prop :=
  ∀ timestamp proposerSig consensusExtra, ∃ receipts next,
    state.applyBlock (state.executedBlock [submission] timestamp proposerSig consensusExtra) =
      (.ok receipts, next)

/-- Every waiting bundle is its sender's only and next one and can be packed alone. -/
structure PoolExecutable (state : ChainStateV2 H) : Prop where
  sendersNodup : (state.pending.map fun submission => submission.sidecar.senderAddr).Nodup
  seq : ∀ submission ∈ state.pending,
    submission.envelope.seq = state.confirmedSeq submission.sidecar.senderAddr + 1
  alone : ∀ submission ∈ state.pending, state.ExecutableAlone submission

/-- No waiting bundle expires at or below the current height. -/
def PoolAlive (state : ChainStateV2 H) : Prop :=
  ∀ submission ∈ state.pending, state.currentHeight < submission.envelope.expiryHeight

/-- An admitted bundle outlives the current height, and a bundle that a new block leaves in the pool
outlives the block's height. -/
def LeavesPoolAlive (state : ChainStateV2 H) : ChainAction H → Prop
  | .submitBundle submission =>
      (∃ next, state.submitBundle submission = .ok next) →
        state.currentHeight < submission.envelope.expiryHeight
  | .buildBlock _ _ _ limit =>
      ∀ submission ∈ state.pending, submission ∉ state.bundlePool.snapshot limit →
        state.currentHeight + 1 < submission.envelope.expiryHeight
  | .applyBlock block =>
      (∃ receipts next, state.applyBlock block = (.ok receipts, next)) →
        ∀ submission ∈ state.pending,
          (∀ entry ∈ block.diffPackage.diffEntries,
            entry.newLeaf.addr ≠ submission.sidecar.senderAddr) →
          state.currentHeight + 1 < submission.envelope.expiryHeight

section Waiting

variable {state : ChainStateV2 H}

omit [Crypto H] [DecidableEq H] in
theorem mem_pending_iff {submission : BundleSubmission H} :
    submission ∈ state.pending ↔
      ∃ addr, state.bundlePool.pendingBySender.get? addr = some submission :=
  OrderedDict.mem_values_iff _ _

omit [DecidableEq H] in
theorem WellFormed.ready_of_mem (wellFormed : state.WellFormed) {submission : BundleSubmission H}
    (member : submission ∈ state.pending) : state.SubmissionReady submission := by
  obtain ⟨addr, found⟩ := mem_pending_iff.mp member
  exact (wellFormed.pool addr submission found).2

omit [DecidableEq H] in
theorem WellFormed.get?_sender (wellFormed : state.WellFormed) {submission : BundleSubmission H}
    (member : submission ∈ state.pending) :
    state.bundlePool.pendingBySender.get? submission.sidecar.senderAddr = some submission := by
  obtain ⟨addr, found⟩ := mem_pending_iff.mp member
  rwa [(wellFormed.pool addr submission found).1]

omit [DecidableEq H] in
theorem WellFormed.pending_sendersNodup (wellFormed : state.WellFormed) :
    (state.pending.map fun submission => submission.sidecar.senderAddr).Nodup := by
  have packed : (state.bundlePool.snapshot none).Perm state.pending :=
    List.perm_insertionSort _ _
  exact (packed.map _).nodup_iff.mp (wellFormed.snapshot_ready none).sendersNodup

/-- A waiting bundle of a well-formed state can be packed alone exactly when it outlives the current
height. -/
theorem WellFormed.executableAlone_iff (wellFormed : state.WellFormed)
    {submission : BundleSubmission H} (member : submission ∈ state.pending) :
    state.ExecutableAlone submission ↔
      state.currentHeight < submission.envelope.expiryHeight := by
  constructor
  · intro alone
    obtain ⟨receipts, next, applied⟩ := alone 0 [] []
    obtain ⟨accepted, _, _⟩ := (applyBlock_eq_ok_iff _ _ _ _).mp applied
    have packed : (state.prepareEntry (state.currentHeight + 1)
        (state.executedBlock [submission] 0 [] []).blockHash submission, submission.sidecar,
        submission.senderPublicKeyPem) ∈ diffItems (state.executedBlock [submission] 0 [] []) := by
      rw [diffItems_executedBlock]
      exact List.mem_cons_self
    exact (accepted.entries _ packed).notExpired
  · intro alive timestamp proposerSig consensusExtra
    have ready : state.SubmissionsReady [submission] :=
      ⟨List.forall_mem_singleton.mpr (wellFormed.ready_of_mem member), List.nodup_singleton _⟩
    exact ⟨_, _, applyBlock_of_accepted (executedBlock_accepted_of_nodup_keys ready
      (List.nodup_singleton _) wellFormed.leavesHaveHeads (List.forall_mem_singleton.mpr alive)
      timestamp proposerSig consensusExtra)⟩

theorem WellFormed.executable_iff_alive (wellFormed : state.WellFormed) :
    state.PoolExecutable ↔ state.PoolAlive := by
  constructor
  · intro executable submission member
    exact (wellFormed.executableAlone_iff member).mp (executable.alone submission member)
  · intro alive
    exact
      { sendersNodup := wellFormed.pending_sendersNodup
        seq := fun submission member => (wellFormed.ready_of_mem member).seq
        alone := fun submission member =>
          (wellFormed.executableAlone_iff member).mpr (alive submission member) }

end Waiting

/-! ## What a call leaves in the pool -/

section Kept

variable {state next : ChainStateV2 H}

/-- An admitted bundle waits in the pool. -/
theorem mem_pending_of_submitted {submission : BundleSubmission H}
    (submitted : state.submitBundle submission = .ok next) : submission ∈ next.pending := by
  simp only [submitBundle, BundlePool.submit, bind_eq_ok, require_eq_ok, exists_const,
    pure_eq_ok] at submitted
  obtain ⟨_, _, pool, ⟨senderAddr, _, _, stored⟩, rfl⟩ := submitted
  apply mem_pending_iff.mpr
  refine ⟨senderAddr, ?_⟩
  cases found : state.bundlePool.pendingBySender.get? senderAddr with
  | none =>
      simp only [found, pure_eq_ok] at stored
      rw [← stored]
      exact OrderedDict.get?_set_self _ _ _
  | some existing =>
      simp only [found, bind_eq_ok, require_eq_ok, exists_const] at stored
      obtain ⟨_, _, stored⟩ := stored
      split at stored
      · next same =>
          rw [← Except.ok.inj stored, ← same]
          exact found
      · simp only [bind_eq_ok, require_eq_ok, exists_const, pure_eq_ok] at stored
        rw [← stored.2]
        exact OrderedDict.get?_set_self _ _ _

theorem eq_or_mem_pending_of_submitted {submission waiting : BundleSubmission H}
    (submitted : state.submitBundle submission = .ok next) (member : waiting ∈ next.pending) :
    waiting = submission ∨ waiting ∈ state.pending := by
  simp only [submitBundle, bind_eq_ok, pure_eq_ok] at submitted
  obtain ⟨_, _, pool, pool_submitted, rfl⟩ := submitted
  obtain ⟨senderAddr, _, _, _, _, _, _, stored⟩ := submit_eq_ok pool_submitted
  obtain ⟨addr, found⟩ := mem_pending_iff.mp member
  rcases stored with rfl | rfl
  · exact .inr (mem_pending_iff.mpr ⟨addr, found⟩)
  · rw [OrderedDict.get?_set] at found
    split at found
    · exact .inl (Option.some.inj found).symm
    · exact .inr (mem_pending_iff.mpr ⟨addr, found⟩)

theorem WellFormed.mem_pending_built (wellFormed : state.WellFormed) (timestamp : ℕ)
    (proposerSig consensusExtra : Bytes) (limit : Option ℤ) (waiting : BundleSubmission H) :
    waiting ∈ (state.buildBlock timestamp proposerSig consensusExtra limit).2.pending ↔
      waiting ∈ state.pending ∧ waiting ∉ state.bundlePool.snapshot limit := by
  rw [ChainStateV2.buildBlock, executeSubmissions_eq]
  constructor
  · intro member
    obtain ⟨addr, found⟩ := mem_pending_iff.mp member
    obtain ⟨waited, later⟩ := get?_foldl_removeFinalizedBundle (state.bundlePool.snapshot limit)
      (fun submission => submission.sidecar.senderAddr) (fun submission => submission.envelope.seq)
      (fun submission => submission.envelope.bundleHash) state.bundlePool found
    refine ⟨mem_pending_iff.mpr ⟨addr, waited⟩, fun packed => ?_⟩
    have same_sender := (wellFormed.pool addr waiting waited).1
    exact (later waiting packed same_sender).false
  · rintro ⟨member, not_packed⟩
    have others : ∀ packed ∈ state.bundlePool.snapshot limit,
        packed.sidecar.senderAddr ≠ waiting.sidecar.senderAddr := by
      intro packed packed_mem same_sender
      obtain ⟨addr, found⟩ := mem_snapshot packed_mem
      have packed_found := wellFormed.get?_sender (mem_pending_iff.mpr ⟨addr, found⟩)
      rw [same_sender, wellFormed.get?_sender member] at packed_found
      exact not_packed (Option.some.inj packed_found ▸ packed_mem)
    refine mem_pending_iff.mpr ⟨waiting.sidecar.senderAddr, ?_⟩
    exact (get?_foldl_removeFinalizedBundle_of_ne _ _ _ _ _ others).trans
      (wellFormed.get?_sender member)

theorem WellFormed.mem_pending_nextState (wellFormed : state.WellFormed) {block : BlockV2 H}
    (accepted : state.BlockAccepted block) (waiting : BundleSubmission H) :
    waiting ∈ (state.nextState block).pending ↔
      waiting ∈ state.pending ∧ ∀ entry ∈ block.diffPackage.diffEntries,
        entry.newLeaf.addr ≠ waiting.sidecar.senderAddr := by
  constructor
  · intro member
    obtain ⟨addr, found⟩ := mem_pending_iff.mp member
    obtain ⟨waited, later⟩ := get?_foldl_removeFinalizedBundle block.diffPackage.diffEntries
      (fun entry => entry.newLeaf.addr) (fun entry => entry.bundleEnvelope.seq)
      DiffEntry.bundleHash state.bundlePool found
    refine ⟨mem_pending_iff.mpr ⟨addr, waited⟩, fun entry entry_mem same_sender => ?_⟩
    obtain ⟨sender_eq, ready⟩ := wellFormed.pool addr waiting waited
    obtain ⟨_, _, _, entry_accepted⟩ := accepted.exists_entryAccepted entry_mem
    have above := later entry entry_mem (same_sender.trans sender_eq)
    have entry_seq := entry_accepted.seq
    have waiting_seq := ready.seq
    rw [same_sender] at entry_seq
    omega
  · rintro ⟨member, others⟩
    refine mem_pending_iff.mpr ⟨waiting.sidecar.senderAddr, ?_⟩
    exact (get?_foldl_removeFinalizedBundle_of_ne _ _ _ _ _ others).trans
      (wellFormed.get?_sender member)

end Kept

/-! ## Executability over runs -/

theorem PoolAlive.step {state : ChainStateV2 H} (alive : state.PoolAlive)
    (wellFormed : state.WellFormed) {action : ChainAction H}
    (leaves : state.LeavesPoolAlive action) : (state.step action).PoolAlive := by
  cases action with
  | submitBundle submission =>
      cases submitted : state.submitBundle submission with
      | error message => simpa only [ChainStateV2.step, submitted] using alive
      | ok next =>
          simp only [ChainStateV2.step, submitted]
          intro waiting member
          have height_eq : next.currentHeight = state.currentHeight := by
            simp only [submitBundle, bind_eq_ok, pure_eq_ok] at submitted
            obtain ⟨_, _, _, _, rfl⟩ := submitted
            rfl
          rw [height_eq]
          rcases eq_or_mem_pending_of_submitted submitted member with rfl | waited
          · exact leaves ⟨next, submitted⟩
          · exact alive waiting waited
  | buildBlock timestamp proposerSig consensusExtra limit =>
      intro waiting member
      obtain ⟨waited, not_packed⟩ := (wellFormed.mem_pending_built _ _ _ _ _).mp member
      exact leaves waiting waited not_packed
  | applyBlock block =>
      by_cases accepted : state.BlockAccepted block
      · have applied := applyBlock_of_accepted accepted
        simp only [ChainStateV2.step, applied]
        intro waiting member
        obtain ⟨waited, others⟩ := (wellFormed.mem_pending_nextState accepted _).mp member
        have outlives := leaves ⟨_, _, applied⟩ waiting waited others
        rwa [← accepted.height] at outlives
      · obtain ⟨message, raised⟩ := applyBlock_of_not_accepted accepted
        simpa only [ChainStateV2.step, raised] using alive

/-- A call after which no waiting bundle has expired met the condition. -/
theorem leavesPoolAlive_of_step {state : ChainStateV2 H} (wellFormed : state.WellFormed)
    {action : ChainAction H} (alive : (state.step action).PoolAlive) :
    state.LeavesPoolAlive action := by
  cases action with
  | submitBundle submission =>
      rintro ⟨next, submitted⟩
      simp only [ChainStateV2.step, submitted] at alive
      have outlives := alive submission (mem_pending_of_submitted submitted)
      simp only [submitBundle, bind_eq_ok, pure_eq_ok] at submitted
      obtain ⟨_, _, _, _, rfl⟩ := submitted
      exact outlives
  | buildBlock timestamp proposerSig consensusExtra limit =>
      intro waiting waited not_packed
      exact alive waiting ((wellFormed.mem_pending_built _ _ _ _ _).mpr ⟨waited, not_packed⟩)
  | applyBlock block =>
      rintro ⟨receipts, next, applied⟩ waiting waited others
      simp only [ChainStateV2.step, applied] at alive
      obtain ⟨accepted, _, rfl⟩ := (applyBlock_eq_ok_iff _ _ _ _).mp applied
      have outlives := alive waiting
        ((wellFormed.mem_pending_nextState accepted _).mpr ⟨waited, others⟩)
      exact accepted.height ▸ outlives

/-- In every run of calls from a new chain, the pool is executable in every state reached exactly
when no admitted bundle expires at the current height and no bundle that a new block leaves in
the pool expires at the block's height; a submission that raises changes nothing. -/
theorem poolExecutable_iff (version chainId receiptCacheBlocks maxBundleBytes maxTxPerBundle
    maxValueEntriesPerTx : ℕ) (genesisBlockHash : H) (actions : List (ChainAction H)) :
    let initial := new version chainId receiptCacheBlocks maxBundleBytes maxTxPerBundle
      maxValueEntriesPerTx genesisBlockHash
    ((∀ earlier, earlier <+: actions → (initial.run earlier).PoolExecutable) ↔
      Runs.Along step LeavesPoolAlive initial actions) ∧
      ∀ earlier, earlier <+: actions → ∀ submission message,
        (initial.run earlier).submitBundle submission = .error message →
          (initial.run earlier).step (.submitBundle submission) = initial.run earlier := by
  intro initial
  have initially : initial.WellFormed ∧ initial.PoolAlive := by
    refine ⟨wellFormed_new version chainId receiptCacheBlocks maxBundleBytes maxTxPerBundle
      maxValueEntriesPerTx genesisBlockHash, ?_⟩
    exact List.forall_mem_nil _
  constructor
  · have kept : ∀ (state : ChainStateV2 H) (action : ChainAction H),
        state.WellFormed ∧ state.PoolAlive → True → state.LeavesPoolAlive action →
          (state.step action).WellFormed ∧ (state.step action).PoolAlive := by
      rintro state action ⟨wellFormed, alive⟩ _ leaves
      exact ⟨wellFormed.step action, alive.step wellFormed leaves⟩
    have executable_of_alive : ∀ state : ChainStateV2 H,
        state.WellFormed ∧ state.PoolAlive → state.PoolExecutable := by
      rintro state ⟨wellFormed, alive⟩
      exact wellFormed.executable_iff_alive.mpr alive
    have leaves_of_executable : ∀ (state : ChainStateV2 H) (action : ChainAction H),
        state.WellFormed ∧ state.PoolAlive → True → (state.step action).PoolExecutable →
          state.LeavesPoolAlive action := by
      rintro state action ⟨wellFormed, _⟩ _ executable
      have alive := (wellFormed.step action).executable_iff_alive.mp executable
      exact leavesPoolAlive_of_step wellFormed alive
    exact (Runs.along_iff_always kept executable_of_alive leaves_of_executable
      (Runs.along_of_forall (fun _ _ => trivial) _ _) initially).symm
  · intro earlier _ submission message raised
    simp only [step, raised]

section Examples

open SymbolicDigest

/-- The block after Alice's holds one bundle, which is admitted as it is applied. -/
theorem applied_admissible_bobBundle :
    (diffItems (afterFirst.peerBlock 2 bobEntry)).length = 1 ∧
      ∀ item ∈ diffItems (afterFirst.peerBlock 2 bobEntry), afterFirst.Admissible item := by
  have applied := applyBlock_of_accepted (peerBlock_accepted 2 bobEntry_valid)
  refine ⟨rfl, (applied_admissible_iff afterFirst _ _ _ applied).mpr ?_⟩
  intro item member
  obtain rfl := List.mem_singleton.mp member
  exact ⟨rfl, by decide, by decide, by decide⟩

/-- A bundle that Alice signed for another chain. -/
def foreignEntry : PeerEntry SymbolicDigest :=
  honestEntry genesis { signedEnvelope firstBundle 1 Nat.one_pos [1] with chainId := 2 }
    firstBundle [1]

theorem foreignEntry_valid : genesis.PeerEntryValid foreignEntry where
  signer := rfl
  bundleHash := rfl
  claimSet := .inl rfl
  signature := by decide
  notExpired := firstEntry_valid.notExpired
  prevRef := rfl
  seq := firstEntry_valid.seq
  known := firstEntry_valid.known

/-- A block with a bundle that was signed for another chain is applied, and the pool refuses the
bundle. -/
theorem applied_not_admissible :
    (∃ receipts next, genesis.applyBlock (genesis.peerBlock 1 foreignEntry) =
      (.ok receipts, next)) ∧
      ∃ item ∈ diffItems (genesis.peerBlock 1 foreignEntry), ¬ genesis.Admissible item := by
  have accepted := peerBlock_accepted 1 foreignEntry_valid
  refine ⟨⟨_, _, applyBlock_of_accepted accepted⟩, _, List.mem_cons_self, fun admissible => ?_⟩
  have rules := ((accepted.entries _ List.mem_cons_self).admissible_iff accepted.height).mp
    admissible
  exact absurd rules.1 (by decide)

/-- Alice's first bundle, which expires at the height of the new chain. -/
def expiringSubmission : BundleSubmission SymbolicDigest where
  envelope := { signedEnvelope firstBundle 1 Nat.one_pos [1] with expiryHeight := 0 }
  sidecar := firstBundle
  senderPublicKeyPem := [1]

/-- The new chain admits a bundle that no next block can carry. -/
theorem not_poolExecutable_expiring :
    (∃ next, genesis.submitBundle expiringSubmission = .ok next) ∧
      ¬ (genesis.run [.submitBundle expiringSubmission]).PoolExecutable := by
  have checked : genesis.bundlePool.checkSubmission expiringSubmission 0 = .ok alice := by
    simp only [BundlePool.checkSubmission, bind_eq_ok, require_eq_ok, exists_const, pure_eq_ok]
    exact ⟨alice, rfl, rfl, rfl, le_refl 0, rfl, .inl rfl, by decide, by decide, by decide,
      by decide, rfl⟩
  obtain ⟨pool, pool_submitted⟩ :=
    BundlePool.exists_submit_emptied_iff.mpr ⟨⟨alice, checked⟩, rfl⟩
  have submitted : genesis.submitBundle expiringSubmission =
      .ok { genesis with bundlePool := pool } := by
    simp only [submitBundle, bind_eq_ok, pure_eq_ok]
    exact ⟨alice, rfl, pool, pool_submitted, rfl⟩
  have wellFormed : (genesis.run [.submitBundle expiringSubmission]).WellFormed :=
    (wellFormed_new 2 1 32 32768 128 64 (filled 0)).run _
  refine ⟨⟨_, submitted⟩, fun executable => ?_⟩
  have alive := wellFormed.executable_iff_alive.mp executable
  simp only [run, List.foldl_cons, List.foldl_nil, step, submitted] at alive
  exact absurd (alive _ (mem_pending_of_submitted submitted)) (Nat.not_lt_zero _)

end Examples

end ChainStateV2

end EZChain
