import EZChain.Chain.Reachable

/-!
# The state tree

The tree of a chain state represents its account leaves: the key of every known account holds the
hash of its leaf, and no other key is present.  Blocks keep this exactly when the tree keys they
write are the keys of the accounts they update.
-/

namespace EZChain

namespace ChainStateV2

variable {H : Type} [Crypto H]

/-- The tree holds the leaf hashes of the known accounts and nothing else. -/
structure TreeRepresents (tree : SparseMerkleTree H 256)
    (leaves : OrderedDict Address (AccountLeaf H)) : Prop where
  leaf : ∀ addr leaf, leaves.get? addr = some leaf →
    tree.get (computeAddrKey H addr).bytes = some (hashAccountLeaf leaf)
  only : ∀ key ∈ tree.values.keys, ∃ addr leaf, leaves.get? addr = some leaf ∧
    key = keyInt (computeAddrKey H addr).bytes

/-- The tree represents the leaves, and the last block commits to it. -/
structure TreeMatches (state : ChainStateV2 H) : Prop where
  represents : TreeRepresents state.tree state.accountLeaves
  root : ∀ block, state.blocks.getLast? = some block → block.header.stateRoot = state.tree.root

/-- Every entry of a block writes the tree key of the account it updates. -/
def KeysMatch (block : BlockV2 H) : Prop :=
  ∀ entry ∈ block.diffPackage.diffEntries, entry.addrKey = computeAddrKey H entry.newLeaf.addr

theorem treeMatches_new (version chainId receiptCacheBlocks maxBundleBytes maxTxPerBundle
    maxValueEntriesPerTx : ℕ) (genesisBlockHash : H) :
    (new version chainId receiptCacheBlocks maxBundleBytes maxTxPerBundle maxValueEntriesPerTx
      genesisBlockHash).TreeMatches :=
  ⟨⟨by nofun, by nofun⟩, by nofun⟩

/-- Writing leaves under the keys of their accounts keeps the representation. -/
theorem TreeRepresents.setLeaves (ideal : IdealAddrKeys H) {tree : SparseMerkleTree H 256}
    {leaves : OrderedDict Address (AccountLeaf H)} (represents : TreeRepresents tree leaves)
    (accounts : ∀ addr leaf, leaves.get? addr = some leaf → IsAccount H addr)
    {entries : List (DiffEntry H)} (sound : EntriesSound entries)
    (keys_nodup : (entries.map DiffEntry.addrKey).Nodup)
    (senders_nodup : (entries.map fun entry => entry.newLeaf.addr).Nodup)
    (keys_match : ∀ entry ∈ entries, entry.addrKey = computeAddrKey H entry.newLeaf.addr) :
    TreeRepresents (setLeaves tree entries) (setAccountLeaves leaves entries) := by
  constructor
  · intro addr leaf found
    rcases get?_setAccountLeaves_eq_some found with ⟨entry, member, rfl, rfl⟩ | ⟨others, earlier⟩
    · rw [← keys_match entry member]
      exact get_setLeaves tree keys_nodup member
    · have absent : computeAddrKey H addr ∉ entries.map DiffEntry.addrKey := by
        intro written
        obtain ⟨entry, member, key_eq⟩ := List.mem_map.mp written
        rw [keys_match entry member] at key_eq
        exact others entry member
          (ideal (sound.accounts entry member) (accounts addr leaf earlier) key_eq)
      rw [get_setLeaves_of_notMem tree absent]
      exact represents.leaf addr leaf earlier
  · intro key member
    rw [values_setLeaves, OrderedDict.mem_keys_setAll] at member
    rcases member with written | earlier
    · simp only [leafItems, List.map_map, List.mem_map, Function.comp_def] at written
      obtain ⟨entry, entry_mem, rfl⟩ := written
      exact ⟨entry.newLeaf.addr, entry.newLeaf,
        get?_setAccountLeaves_of_mem leaves senders_nodup entry_mem,
        by rw [keys_match entry entry_mem]⟩
    · obtain ⟨addr, leaf, found, key_eq⟩ := represents.only key earlier
      have known : addr ∈ (setAccountLeaves leaves entries).keys := by
        rw [setAccountLeaves, OrderedDict.mem_keys_setAll]
        refine Or.inr (by_contra fun absent => ?_)
        rw [(OrderedDict.get?_eq_none_iff _ _).mpr absent] at found
        cases found
      cases stored : (setAccountLeaves leaves entries).get? addr with
      | none => exact absurd known ((OrderedDict.get?_eq_none_iff _ _).mp stored)
      | some newLeaf => exact ⟨addr, newLeaf, stored, key_eq⟩

/-! ## One step -/

theorem WellFormed.isAccount {state : ChainStateV2 H} (wellFormed : state.WellFormed) :
    ∀ addr leaf, state.accountLeaves.get? addr = some leaf → IsAccount H addr :=
  fun addr leaf found => (wellFormed.leaves addr leaf found).2.2

variable [DecidableEq H]

/-- An accepted block with matching keys keeps the representation. -/
theorem TreeMatches.nextState (ideal : IdealAddrKeys H) {state : ChainStateV2 H}
    (treeMatches : state.TreeMatches) (wellFormed : state.WellFormed) {block : BlockV2 H}
    (accepted : state.BlockAccepted block) (keys_match : KeysMatch block) :
    (state.nextState block).TreeMatches := by
  refine ⟨treeMatches.represents.setLeaves ideal wellFormed.isAccount accepted.entriesSound
    accepted.keysNodup accepted.sendersNodup keys_match, fun last last_eq => ?_⟩
  simp only [ChainStateV2.nextState, List.getLast?_concat, Option.some.injEq] at last_eq
  rw [← last_eq]
  exact accepted.stateRoot.symm

/-- A built block keeps the representation. -/
theorem TreeMatches.buildBlock (ideal : IdealAddrKeys H) {state : ChainStateV2 H}
    (treeMatches : state.TreeMatches) (wellFormed : state.WellFormed) (timestamp : ℕ)
    (proposerSig consensusExtra : Bytes) (limit : Option ℤ) :
    (state.buildBlock timestamp proposerSig consensusExtra limit).2.TreeMatches := by
  have sound := wellFormed.entriesSound_builtBlock timestamp proposerSig consensusExtra limit
  have ready := (wellFormed.snapshot_ready limit).sorted
  have entries_eq := state.diffEntries_executedBlock (state.bundlePool.snapshot limit) timestamp
    proposerSig consensusExtra
  rw [ChainStateV2.buildBlock, executeSubmissions_eq]
  constructor
  · refine treeMatches.represents.setLeaves ideal wellFormed.isAccount sound ?_ ?_ ?_
    · rw [entries_eq, List.map_map]
      exact ready.nodup_keys ideal
    · rw [entries_eq, List.map_map]
      exact ready.sendersNodup
    · intro entry member
      rw [entries_eq] at member
      obtain ⟨submission, _, rfl⟩ := List.mem_map.mp member
      rfl
  · intro last last_eq
    simp only [ChainStateV2.nextState, List.getLast?_concat, Option.some.injEq] at last_eq
    rw [← last_eq]
    rfl

theorem keysMatch_of_treeMatches (ideal : IdealHash H) {state : ChainStateV2 H}
    (wellFormed : state.WellFormed) {block : BlockV2 H} (accepted : state.BlockAccepted block)
    (treeMatches : (state.nextState block).TreeMatches) : KeysMatch block := by
  intro entry member
  have written : (state.nextState block).tree.get entry.addrKey.bytes =
      some (hashAccountLeaf entry.newLeaf) :=
    get_setLeaves state.tree accepted.keysNodup member
  have key_mem : keyInt entry.addrKey.bytes ∈ (state.nextState block).tree.values.keys := by
    refine by_contra fun absent => ?_
    rw [SparseMerkleTree.get, (OrderedDict.get?_eq_none_iff _ _).mpr absent] at written
    cases written
  obtain ⟨addr, leaf, found, int_eq⟩ := treeMatches.represents.only _ key_mem
  have key_eq : entry.addrKey = computeAddrKey H addr := keyInt_bytes_injective int_eq
  have stored := treeMatches.represents.leaf addr leaf found
  rw [← key_eq, written, Option.some.injEq] at stored
  have leaf_eq : entry.newLeaf = leaf := hashAccountLeaf_injective ideal stored
  rw [key_eq, leaf_eq, ((wellFormed.nextState accepted).leaves addr leaf found).1]

/-- A call keeps the representation unless it applies a block whose keys do not match. -/
theorem TreeMatches.step (ideal : IdealAddrKeys H) {state : ChainStateV2 H}
    (treeMatches : state.TreeMatches) (wellFormed : state.WellFormed) (action : ChainAction H)
    (keys_match : ∀ block, action = .applyBlock block → state.BlockAccepted block →
      KeysMatch block) : (state.step action).TreeMatches := by
  cases action with
  | submitBundle submission =>
      cases submitted : state.submitBundle submission with
      | error message => simpa only [ChainStateV2.step, submitted] using treeMatches
      | ok next =>
          simp only [ChainStateV2.step, submitted]
          simp only [ChainStateV2.submitBundle, Checks.bind_eq_ok, Checks.pure_eq_ok] at submitted
          obtain ⟨_, _, _, _, rfl⟩ := submitted
          exact ⟨treeMatches.represents, treeMatches.root⟩
  | buildBlock timestamp proposerSig consensusExtra limit =>
      exact treeMatches.buildBlock ideal wellFormed timestamp proposerSig consensusExtra limit
  | applyBlock block =>
      by_cases accepted : state.BlockAccepted block
      · rw [step_applyBlock accepted]
        exact treeMatches.nextState ideal wellFormed accepted (keys_match block rfl accepted)
      · obtain ⟨message, raised⟩ := applyBlock_of_not_accepted accepted
        simpa only [ChainStateV2.step, raised] using treeMatches

/-! ## Runs -/

theorem run_concat (state : ChainStateV2 H) (actions : List (ChainAction H))
    (action : ChainAction H) :
    state.run (actions ++ [action]) = (state.run actions).step action := by
  simp [run]

/-- Along every run from genesis, the tree represents the leaves in all states exactly when every
accepted block of a peer writes the keys of the accounts it updates. -/
theorem treeMatches_iff_keysMatch (ideal : IdealHash H) (idealKeys : IdealAddrKeys H)
    (version chainId receiptCacheBlocks maxBundleBytes maxTxPerBundle maxValueEntriesPerTx : ℕ)
    (genesisBlockHash : H) (actions : List (ChainAction H)) :
    (∀ earlier, earlier <+: actions →
      ((new version chainId receiptCacheBlocks maxBundleBytes maxTxPerBundle maxValueEntriesPerTx
        genesisBlockHash).run earlier).TreeMatches) ↔
    ∀ earlier block, earlier ++ [.applyBlock block] <+: actions →
      ((new version chainId receiptCacheBlocks maxBundleBytes maxTxPerBundle maxValueEntriesPerTx
        genesisBlockHash).run earlier).BlockAccepted block → KeysMatch block := by
  have wellFormed := fun earlier => (wellFormed_new (H := H) version chainId receiptCacheBlocks
    maxBundleBytes maxTxPerBundle maxValueEntriesPerTx genesisBlockHash).run earlier
  constructor
  · intro treeMatches earlier block block_prefix accepted
    have after := treeMatches _ block_prefix
    rw [run_concat, step_applyBlock accepted] at after
    exact keysMatch_of_treeMatches ideal (wellFormed earlier) accepted after
  · intro keys_match earlier earlier_prefix
    induction earlier using List.reverseRecOn with
    | nil =>
        exact treeMatches_new version chainId receiptCacheBlocks maxBundleBytes maxTxPerBundle
          maxValueEntriesPerTx genesisBlockHash
    | append_singleton earlier action induction =>
        have treeMatches := induction ((List.prefix_append _ _).trans earlier_prefix)
        rw [run_concat]
        refine treeMatches.step idealKeys (wellFormed earlier) action
          fun block action_eq accepted => ?_
        exact keys_match earlier block (action_eq ▸ earlier_prefix) accepted

section Examples

open SymbolicDigest

/-- The blocks of Alice's and Bob's first bundles. -/
def twoBundles : List (ChainAction SymbolicDigest) :=
  [.applyBlock (genesis.peerBlock 1 firstEntry), .applyBlock (afterFirst.peerBlock 2 bobEntry)]

/-- The tree of a chain that applied both bundles. -/
theorem treeMatches_twoBundles : (genesis.run twoBundles).TreeMatches := by
  refine (treeMatches_iff_keysMatch idealHash idealAddrKeys 2 1 32 32768 128 64 (filled 0)
    twoBundles).mpr ?_ _ (List.prefix_refl _)
  intro earlier block block_prefix _
  have block_mem : ChainAction.applyBlock block ∈ twoBundles :=
    block_prefix.subset (List.mem_append_right _ List.mem_cons_self)
  rcases List.mem_pair.mp block_mem with block_eq | block_eq
  all_goals
    obtain rfl := ChainAction.applyBlock.inj block_eq
    intro entry member
    obtain rfl := List.mem_singleton.mp member
    rfl

/-- Alice's first bundle under a tree key that is not hers. -/
def misplacedEntry : PeerEntry SymbolicDigest := { firstEntry with addrKey := bytesFilled 9 }

theorem misplacedEntry_valid : genesis.PeerEntryValid misplacedEntry where
  signer := firstEntry_valid.signer
  bundleHash := firstEntry_valid.bundleHash
  claimSet := firstEntry_valid.claimSet
  signature := firstEntry_valid.signature
  notExpired := firstEntry_valid.notExpired
  prevRef := firstEntry_valid.prevRef
  seq := firstEntry_valid.seq
  known := firstEntry_valid.known

/-- The chain accepts the misplaced leaf, and its tree misses Alice's key. -/
theorem treeMatches_misplaced :
    ¬ (genesis.run [.applyBlock (genesis.peerBlock 1 misplacedEntry)]).TreeMatches := by
  have accepted := peerBlock_accepted 1 misplacedEntry_valid
  intro treeMatches
  rw [run_applyBlock accepted] at treeMatches
  have wellFormed : genesis.WellFormed := wellFormed_new 2 1 32 32768 128 64 (filled 0)
  have keys_match := keysMatch_of_treeMatches idealHash wellFormed accepted treeMatches
  have key_eq : misplacedEntry.addrKey = computeAddrKey SymbolicDigest alice :=
    keys_match (misplacedEntry.diffEntry _) List.mem_cons_self
  exact absurd key_eq (by decide)

end Examples

end ChainStateV2

end EZChain
