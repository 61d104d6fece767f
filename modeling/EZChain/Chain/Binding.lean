import EZChain.Chain.PeerBlock

/-!
# What a block hash binds

Two accepted blocks with one hash update the same accounts with the same bundles.  Their effects
are the same exactly when the entries also agree on the height and seq of the new heads and on
the claim set hashes, which the hash does not commit to.
-/

namespace EZChain

namespace ChainStateV2

variable {H : Type} [Crypto H]

/-- The fields of an entry that reach the state and that the block hash leaves open. -/
def openFields (entry : DiffEntry H) : Option (ℕ × ℕ) × Option H :=
  (entry.newLeaf.headRef.map fun headRef => (headRef.height, headRef.seq),
    entry.newLeaf.claimSetHash)

/-- Two blocks agree on the open fields of their entries, in order. -/
def OpenFieldsAgree (left right : BlockV2 H) : Prop :=
  left.diffPackage.diffEntries.map openFields = right.diffPackage.diffEntries.map openFields

/-! ## One entry -/

section Entry

variable {state : ChainStateV2 H} {left right : BlockV2 H} {leftEntry rightEntry : DiffEntry H}
  {leftSidecar rightSidecar : BundleSidecar} {leftKey rightKey : Bytes}

/-- Entries that confirm one bundle update one account. -/
theorem EntryAccepted.addr_eq (ideal : IdealHash H)
    (left_accepted : state.EntryAccepted left leftEntry leftSidecar leftKey)
    (right_accepted : state.EntryAccepted right rightEntry rightSidecar rightKey)
    (bundle_eq : leftEntry.bundleHash = rightEntry.bundleHash) :
    leftEntry.newLeaf.addr = rightEntry.newLeaf.addr := by
  have body_eq : leftSidecar = rightSidecar := by
    apply computeBundleHash_injective ideal
    rw [← left_accepted.bundleHash, ← right_accepted.bundleHash, bundle_eq]
  rw [← left_accepted.sender, ← right_accepted.sender, body_eq]

/-- Entries that confirm one bundle in blocks of one hash write the same leaf exactly when their
open fields agree. -/
theorem EntryAccepted.newLeaf_eq_iff (ideal : IdealHash H)
    (left_accepted : state.EntryAccepted left leftEntry leftSidecar leftKey)
    (right_accepted : state.EntryAccepted right rightEntry rightSidecar rightKey)
    (bundle_eq : leftEntry.bundleHash = rightEntry.bundleHash)
    (block_eq : left.blockHash = right.blockHash) :
    leftEntry.newLeaf = rightEntry.newLeaf ↔ openFields leftEntry = openFields rightEntry := by
  constructor
  · intro leaf_eq
    rw [openFields, openFields, leaf_eq]
  · intro fields_eq
    have addr_eq := left_accepted.addr_eq ideal right_accepted bundle_eq
    have prev_eq : leftEntry.newLeaf.prevRef = rightEntry.newLeaf.prevRef := by
      rw [left_accepted.prevRef, right_accepted.prevRef, addr_eq]
    obtain ⟨leftHead, left_head, left_bundle, left_block⟩ := left_accepted.headRef
    obtain ⟨rightHead, right_head, right_bundle, right_block⟩ := right_accepted.headRef
    simp only [openFields, left_head, right_head, Option.map_some, Prod.mk.injEq,
      Option.some.injEq] at fields_eq
    obtain ⟨⟨height_eq, seq_eq⟩, claims_eq⟩ := fields_eq
    have head_bundle_eq : leftHead.bundleHash = rightHead.bundleHash := by
      rw [left_bundle, right_bundle, ← left_accepted.bundleHash, ← right_accepted.bundleHash,
        bundle_eq]
    have head_block_eq : leftHead.blockHash = rightHead.blockHash := by
      rw [left_block, right_block, block_eq]
    have head_eq : leftHead = rightHead := by
      cases leftHead
      cases rightHead
      simp_all
    have head_ref_eq : leftEntry.newLeaf.headRef = rightEntry.newLeaf.headRef := by
      rw [left_head, right_head, head_eq]
    generalize leftEntry.newLeaf = leftLeaf at *
    generalize rightEntry.newLeaf = rightLeaf at *
    cases leftLeaf
    cases rightLeaf
    simp_all

end Entry

/-! ## Blocks of one hash -/

theorem map_eq_map_iff_zip {α β γ : Type} (f : α → γ) (g : β → γ) {left : List α} {right : List β}
    (length_eq : left.length = right.length) :
    left.map f = right.map g ↔ ∀ pair ∈ left.zip right, f pair.1 = g pair.2 := by
  induction left generalizing right with
  | nil =>
      cases right with
      | nil => simp
      | cons head tail => simp at length_eq
  | cons head tail induction =>
      cases right with
      | nil => simp at length_eq
      | cons head' tail' =>
          have tail_length : tail.length = tail'.length := by simpa using length_eq
          simp only [List.map_cons, List.cons.injEq, List.zip_cons_cons, List.forall_mem_cons,
            induction tail_length]

section Blocks

variable {state : ChainStateV2 H} {left right : BlockV2 H}

/-- The entries of two accepted blocks of one hash, position by position. -/
structure SamePosition (state : ChainStateV2 H) (left right : BlockV2 H)
    (leftEntry rightEntry : DiffEntry H) : Prop where
  addrKey : leftEntry.addrKey = rightEntry.addrKey
  addr : leftEntry.newLeaf.addr = rightEntry.newLeaf.addr
  seq : leftEntry.bundleEnvelope.seq = rightEntry.bundleEnvelope.seq
  newLeaf : leftEntry.newLeaf = rightEntry.newLeaf ↔ openFields leftEntry = openFields rightEntry

theorem BlockAccepted.samePosition (ideal : IdealHash H) (left_accepted : state.BlockAccepted left)
    (right_accepted : state.BlockAccepted right) (hash_eq : left.blockHash = right.blockHash) :
    left.diffPackage.diffEntries.length = right.diffPackage.diffEntries.length ∧
      ∀ pair ∈ left.diffPackage.diffEntries.zip right.diffPackage.diffEntries,
        SamePosition state left right pair.1 pair.2 := by
  have committed := deriveBlockHash_injective ideal
    (left_accepted.blockHash.trans (hash_eq.trans right_accepted.blockHash.symm))
  obtain ⟨_, _, _, _, _, keys_eq, bundles_eq⟩ := committed
  have length_eq : left.diffPackage.diffEntries.length = right.diffPackage.diffEntries.length := by
    simpa only [List.length_map] using congrArg List.length keys_eq
  refine ⟨length_eq, fun pair member => ?_⟩
  obtain ⟨left_mem, right_mem⟩ := List.of_mem_zip member
  obtain ⟨_, _, _, left_entry⟩ := left_accepted.exists_entryAccepted left_mem
  obtain ⟨_, _, _, right_entry⟩ := right_accepted.exists_entryAccepted right_mem
  have key_eq := (map_eq_map_iff_zip _ _ length_eq).mp keys_eq pair member
  have bundle_eq := (map_eq_map_iff_zip _ _ length_eq).mp bundles_eq pair member
  have addr_eq := left_entry.addr_eq ideal right_entry bundle_eq
  exact ⟨key_eq, addr_eq, by rw [left_entry.seq, right_entry.seq, addr_eq],
    left_entry.newLeaf_eq_iff ideal right_entry bundle_eq hash_eq⟩

theorem BlockAccepted.newLeaves_eq_iff (ideal : IdealHash H)
    (left_accepted : state.BlockAccepted left) (right_accepted : state.BlockAccepted right)
    (hash_eq : left.blockHash = right.blockHash) :
    left.diffPackage.diffEntries.map DiffEntry.newLeaf =
        right.diffPackage.diffEntries.map DiffEntry.newLeaf ↔ OpenFieldsAgree left right := by
  obtain ⟨length_eq, positions⟩ := left_accepted.samePosition ideal right_accepted hash_eq
  rw [OpenFieldsAgree, map_eq_map_iff_zip _ _ length_eq, map_eq_map_iff_zip _ _ length_eq]
  exact forall₂_congr fun pair member => (positions pair member).newLeaf

variable [DecidableEq H]

/-- Blocks that write the same leaves have the same effect. -/
theorem BlockAccepted.effect_eq (ideal : IdealHash H) (left_accepted : state.BlockAccepted left)
    (right_accepted : state.BlockAccepted right) (hash_eq : left.blockHash = right.blockHash)
    (leaves_eq : left.diffPackage.diffEntries.map DiffEntry.newLeaf =
      right.diffPackage.diffEntries.map DiffEntry.newLeaf) :
    (state.nextState left).accountLeaves = (state.nextState right).accountLeaves ∧
      (state.nextState left).tree = (state.nextState right).tree ∧
      state.blockReceipts left = state.blockReceipts right := by
  obtain ⟨length_eq, positions⟩ := left_accepted.samePosition ideal right_accepted hash_eq
  have leaf_eq := (map_eq_map_iff_zip _ _ length_eq).mp leaves_eq
  have tree_eq : (state.nextState left).tree = (state.nextState right).tree := by
    have items_eq : leafItems left.diffPackage.diffEntries =
        leafItems right.diffPackage.diffEntries := by
      refine (map_eq_map_iff_zip _ _ length_eq).mpr fun pair member => ?_
      rw [(positions pair member).addrKey, leaf_eq pair member]
    apply SparseMerkleTree.ext
    change (setLeaves _ _).values = (setLeaves _ _).values
    rw [values_setLeaves, values_setLeaves, items_eq]
  refine ⟨?_, tree_eq, ?_⟩
  · change state.accountLeaves.setAll _ = state.accountLeaves.setAll _
    congr 1
    refine (map_eq_map_iff_zip _ _ length_eq).mpr fun pair member => ?_
    rw [leaf_eq pair member]
  · change OrderedDict.setAll _ _ = OrderedDict.setAll _ _
    congr 1
    refine (map_eq_map_iff_zip _ _ length_eq).mpr fun pair member => ?_
    have root_eq : left.header.stateRoot = right.header.stateRoot := by
      rw [← left_accepted.stateRoot, ← right_accepted.stateRoot]
      exact congrArg SparseMerkleTree.root tree_eq
    have height_eq : left.header.height = right.header.height := by
      rw [left_accepted.height, right_accepted.height]
    have position := positions pair member
    simp only [appliedReceipt, leaf_eq pair member, position.addrKey, position.seq, root_eq,
      height_eq, hash_eq]
    simp only [ChainStateV2.nextState] at tree_eq
    rw [tree_eq]

/-- Two accepted blocks of one hash lead to the same leaves, root and receipts exactly when their
open fields agree. -/
theorem effect_eq_iff_openFieldsAgree (ideal : IdealHash H) (state leftState rightState :
    ChainStateV2 H) (left right : BlockV2 H) (leftReceipts rightReceipts :
    OrderedDict Address (Receipt H))
    (left_applied : state.applyBlock left = (.ok leftReceipts, leftState))
    (right_applied : state.applyBlock right = (.ok rightReceipts, rightState))
    (hash_eq : left.blockHash = right.blockHash) :
    (leftState.accountLeaves = rightState.accountLeaves ∧
        leftState.tree.root = rightState.tree.root ∧ leftReceipts = rightReceipts) ↔
      OpenFieldsAgree left right := by
  obtain ⟨left_accepted, rfl, rfl⟩ := (applyBlock_eq_ok_iff _ _ _ _).mp left_applied
  obtain ⟨right_accepted, rfl, rfl⟩ := (applyBlock_eq_ok_iff _ _ _ _).mp right_applied
  rw [← left_accepted.newLeaves_eq_iff ideal right_accepted hash_eq]
  constructor
  · rintro ⟨leaves_eq, _, _⟩
    obtain ⟨length_eq, positions⟩ := left_accepted.samePosition ideal right_accepted hash_eq
    refine (map_eq_map_iff_zip _ _ length_eq).mpr fun pair member => ?_
    obtain ⟨left_mem, right_mem⟩ := List.of_mem_zip member
    have left_leaf : (state.nextState left).accountLeaves.get? pair.1.newLeaf.addr =
        some pair.1.newLeaf :=
      get?_setAccountLeaves_of_mem _ left_accepted.sendersNodup left_mem
    have right_leaf : (state.nextState right).accountLeaves.get? pair.2.newLeaf.addr =
        some pair.2.newLeaf :=
      get?_setAccountLeaves_of_mem _ right_accepted.sendersNodup right_mem
    rw [leaves_eq, (positions pair member).addr, right_leaf, Option.some.injEq] at left_leaf
    exact left_leaf.symm
  · intro leaves_eq
    obtain ⟨accounts_eq, tree_eq, receipts_eq⟩ :=
      left_accepted.effect_eq ideal right_accepted hash_eq leaves_eq
    exact ⟨accounts_eq, congrArg SparseMerkleTree.root tree_eq, receipts_eq⟩

end Blocks

section Examples

open SymbolicDigest

/-- Alice's first bundle, with height 7 written into the head of her leaf. -/
def raisedEntry : PeerEntry SymbolicDigest := { firstEntry with headHeight := 7 }

theorem raisedEntry_valid : genesis.PeerEntryValid raisedEntry where
  signer := firstEntry_valid.signer
  bundleHash := firstEntry_valid.bundleHash
  claimSet := firstEntry_valid.claimSet
  signature := firstEntry_valid.signature
  notExpired := firstEntry_valid.notExpired
  prevRef := firstEntry_valid.prevRef
  seq := firstEntry_valid.seq
  known := firstEntry_valid.known

/-- Two blocks of one hash whose open fields differ do not have the same effect. -/
theorem not_sameEffect_raisedBlock :
    ¬ ((genesis.nextState (genesis.peerBlock 1 firstEntry)).accountLeaves =
          (genesis.nextState (genesis.peerBlock 1 raisedEntry)).accountLeaves ∧
        (genesis.nextState (genesis.peerBlock 1 firstEntry)).tree.root =
          (genesis.nextState (genesis.peerBlock 1 raisedEntry)).tree.root ∧
        genesis.blockReceipts (genesis.peerBlock 1 firstEntry) =
          genesis.blockReceipts (genesis.peerBlock 1 raisedEntry)) := by
  rw [effect_eq_iff_openFieldsAgree idealHash genesis _ _ _ _ _ _
    (applyBlock_of_accepted (peerBlock_accepted 1 firstEntry_valid))
    (applyBlock_of_accepted (peerBlock_accepted 1 raisedEntry_valid)) rfl]
  rw [OpenFieldsAgree]
  decide

/-- Two accepted blocks of one hash that write different leaves for Alice. -/
theorem effect_ne_raisedBlock :
    (genesis.peerBlock 1 firstEntry).blockHash = (genesis.peerBlock 1 raisedEntry).blockHash ∧
      genesis.BlockAccepted (genesis.peerBlock 1 firstEntry) ∧
      genesis.BlockAccepted (genesis.peerBlock 1 raisedEntry) ∧
      (genesis.nextState (genesis.peerBlock 1 firstEntry)).accountLeaves ≠
        (genesis.nextState (genesis.peerBlock 1 raisedEntry)).accountLeaves := by
  refine ⟨rfl, peerBlock_accepted 1 firstEntry_valid, peerBlock_accepted 1 raisedEntry_valid, ?_⟩
  intro leaves_eq
  have heights_eq := congrArg (fun leaves => (OrderedDict.get? leaves alice).bind
    fun leaf => leaf.headRef.map BundleRef.height) leaves_eq
  exact absurd heights_eq (by decide)

end Examples

end ChainStateV2

end EZChain
