import EZChain.Wallet.Calls

/-!
# Stored proofs

The database stores a receipt without its proof when the proof batch of the receipt's block yields
it: the row then names the batch and a key, and reading the row takes the proof out of the batch
again.  What a row turns into therefore depends on the batch that is stored at the time.
-/

namespace EZChain

open Checks SparseTree

variable {H : Type}

/-! ## Compact receipts -/

/-- `get_receipt_proof_batch`: the stored batches by their ids. -/
abbrev BatchLookup (H : Type) : Type := BatchId H → Option (ReceiptProofBatch H)

/-- `materialize_proof`: the proof of one key, with default digests for nodes not listed. -/
def materializeProof [Crypto H] (multiProof : SparseMerkleMultiProof H) (key : Bytes) :
    Except String (SparseMerkleProof H) := do
  require (key.length * 8 = multiProof.depth) "key length does not match multiproof depth"
  let nodeMap := (∅ : OrderedDict (List Bool) H).setAll
    (multiProof.nodes.map fun node => (node.prefixBits, node.nodeHash))
  let bits := keyBits key multiProof.depth
  pure
    { siblings := (List.range multiProof.depth).map fun level =>
        (nodeMap.get? (siblingPrefixForLevel bits level)).getD
          (defaultHash nodeHash emptyLeafHash level)
      existence := key ∈ multiProof.keys }

theorem exists_materializeProof_eq_ok [Crypto H] {multiProof : SparseMerkleMultiProof H}
    {key : Bytes} (length_eq : key.length * 8 = multiProof.depth) :
    ∃ siblings, materializeProof multiProof key = .ok ⟨siblings, key ∈ multiProof.keys⟩ := by
  simp only [materializeProof, bind_eq_ok, require_eq_ok, exists_const, pure_eq_ok]
  exact ⟨_, length_eq, rfl⟩

/-- The batch of the block that a header names. -/
def HeaderLite.batchId (header : HeaderLite H) : BatchId H := ⟨header.height, header.blockHash⟩

namespace Receipt

/-- The receipt with another proof. -/
def withProof (receipt : Receipt H) (proof : ReceiptProof H) : Receipt H :=
  { receipt with proof := proof }

variable [Crypto H] [DecidableEq H]

/-- `_compact_receipt_with_batch`. -/
def compact (receipt : Receipt H) (senderAddr : Address)
    (proofBatch : Option (ReceiptProofBatch H)) : Except String (Receipt H) :=
  match receipt.proof, proofBatch with
  | .batchRef _, _ => pure receipt
  | .single _, none => pure receipt
  | .single proof, some batch =>
      if batch.stateRoot ≠ receipt.headerLite.stateRoot then pure receipt
      else do
        let key := computeAddrKey H senderAddr
        let materialized ← materializeProof batch.multiProof key.bytes
        pure (if materialized ≠ proof then receipt
          else receipt.withProof (.batchRef ⟨batch.batchId, key⟩))

/-- `_materialize_receipt_with_lookup`. -/
def materialize (lookup : BatchLookup H) (receipt : Receipt H) : Except String (Receipt H) :=
  match receipt.proof with
  | .single _ => pure receipt
  | .batchRef ref =>
      match lookup ref.batchId with
      | none => pure receipt
      | some batch =>
          if batch.stateRoot ≠ receipt.headerLite.stateRoot then pure receipt
          else do
            let proof ← materializeProof batch.multiProof ref.key.bytes
            pure (receipt.withProof (.single proof))

end Receipt

/-- A lookup that finds batches under their own ids. -/
def BatchLookup.Keyed (lookup : BatchLookup H) : Prop :=
  ∀ batchId batch, lookup batchId = some batch → batch.batchId = batchId

section Receipts

variable [Crypto H] [DecidableEq H] {lookup : BatchLookup H} {receipt : Receipt H}

theorem Receipt.materialize_of_single {proof : SparseMerkleProof H}
    (single : receipt.proof = .single proof) : receipt.materialize lookup = .ok receipt := by
  simp only [Receipt.materialize, single]
  rfl

theorem Receipt.materialize_of_batchRef {ref : ReceiptProofRef H} {batch : ReceiptProofBatch H}
    {proof : SparseMerkleProof H} (unproved : receipt.proof = .batchRef ref)
    (found : lookup ref.batchId = some batch)
    (same_root : batch.stateRoot = receipt.headerLite.stateRoot)
    (materialized : materializeProof batch.multiProof ref.key.bytes = .ok proof) :
    receipt.materialize lookup = .ok (receipt.withProof (.single proof)) := by
  simp only [Receipt.materialize, unproved, found, if_neg (not_not.mpr same_root), materialized]
  rfl

/-- A receipt that is read without a proof is the row itself. -/
theorem Receipt.eq_of_materialize_batchRef {full : Receipt H} {ref : ReceiptProofRef H}
    (materialized : receipt.materialize lookup = .ok full) (unproved : full.proof = .batchRef ref) :
    full = receipt := by
  have unchanged : ∀ {other : Receipt H}, (pure receipt : Except String _) = .ok other →
      other = receipt := fun same => (Except.ok.inj same).symm
  rw [Receipt.materialize] at materialized
  split at materialized
  · exact unchanged materialized
  · split at materialized
    · exact unchanged materialized
    · split_ifs at materialized
      · exact unchanged materialized
      · simp only [bind_eq_ok, pure_eq_ok] at materialized
        obtain ⟨proof, _, rfl⟩ := materialized
        cases unproved

/-- A receipt without a proof is stored as it is. -/
theorem Receipt.compact_of_batchRef {senderAddr : Address} {row : Receipt H}
    {proofBatch : Option (ReceiptProofBatch H)} {ref : ReceiptProofRef H}
    (unproved : receipt.proof = .batchRef ref)
    (compacted : receipt.compact senderAddr proofBatch = .ok row) : row = receipt := by
  simp only [Receipt.compact, unproved, pure_eq_ok] at compacted
  exact compacted.symm

/-- A receipt with a proof is read back as it was stored. -/
theorem Receipt.materialize_of_compact {senderAddr : Address} {row : Receipt H}
    (keyed : lookup.Keyed) {batchId : BatchId H} {proof : SparseMerkleProof H}
    (proved : receipt.proof = .single proof)
    (compacted : receipt.compact senderAddr (lookup batchId) = .ok row) :
    row.materialize lookup = .ok receipt := by
  have kept : ∀ {other : Receipt H}, (pure receipt : Except String _) = .ok other →
      other.materialize lookup = .ok receipt := by
    intro other same
    rw [← Except.ok.inj same]
    exact Receipt.materialize_of_single proved
  cases found : lookup batchId with
  | none =>
      simp only [Receipt.compact, proved, found] at compacted
      exact kept compacted
  | some batch =>
      simp only [Receipt.compact, proved, found] at compacted
      split_ifs at compacted with roots
      · exact kept compacted
      · simp only [bind_eq_ok, pure_eq_ok] at compacted
        obtain ⟨materialized, materialized_eq, row_eq⟩ := compacted
        split_ifs at row_eq with differs
        · exact kept (congrArg Except.ok row_eq)
        · have batchId_eq : batch.batchId = batchId := keyed batchId batch found
          rw [not_not.mp differs] at materialized_eq
          have same : receipt.withProof (.single proof) = receipt := by
            rw [← proved]
            rfl
          rw [← row_eq, Receipt.materialize]
          simp only [Receipt.withProof, batchId_eq, found, if_neg roots, materialized_eq]
          exact congrArg Except.ok same

/-- Compaction changes nothing but the proof. -/
theorem Receipt.exists_withProof_of_compact {senderAddr : Address} {row : Receipt H}
    {proofBatch : Option (ReceiptProofBatch H)}
    (compacted : receipt.compact senderAddr proofBatch = .ok row) :
    ∃ proof, row = receipt.withProof proof := by
  have unchanged : ∀ {other : Receipt H}, (pure receipt : Except String _) = .ok other →
      ∃ proof, other = receipt.withProof proof :=
    fun same => ⟨receipt.proof, (Except.ok.inj same).symm⟩
  unfold Receipt.compact at compacted
  split at compacted
  · exact unchanged compacted
  · exact unchanged compacted
  · split_ifs at compacted
    · exact unchanged compacted
    · simp only [bind_eq_ok, pure_eq_ok] at compacted
      obtain ⟨materialized, _, rfl⟩ := compacted
      split_ifs
      · exact ⟨receipt.proof, rfl⟩
      · exact ⟨_, rfl⟩

end Receipts

/-! ## Units, witnesses and records -/

namespace ConfirmedBundleUnit

variable [Crypto H] [DecidableEq H]

/-- `_compact_unit_with_batch`, with the batch of the unit's block. -/
def compact (lookup : BatchLookup H) (unit : ConfirmedBundleUnit H) :
    Except String (ConfirmedBundleUnit H) := do
  let receipt ← unit.receipt.compact unit.bundleSidecar.senderAddr
    (lookup unit.receipt.headerLite.batchId)
  pure { unit with receipt := receipt }

/-- `_materialize_unit_with_lookup`. -/
def materialize (lookup : BatchLookup H) (unit : ConfirmedBundleUnit H) :
    Except String (ConfirmedBundleUnit H) := do
  let receipt ← unit.receipt.materialize lookup
  pure { unit with receipt := receipt }

end ConfirmedBundleUnit

namespace WitnessV2

/-- Convert every unit of a witness. -/
def mapUnits (convert : ConfirmedBundleUnit H → Except String (ConfirmedBundleUnit H)) :
    WitnessV2 H → Except String (WitnessV2 H)
  | genesis value owner chain anchor => do
      let chain ← chain.mapM convert
      pure (genesis value owner chain anchor)
  | checkpoint value owner chain anchor => do
      let chain ← chain.mapM convert
      pure (checkpoint value owner chain anchor)
  | prior value owner chain acquireTx priorWitness => do
      let chain ← chain.mapM convert
      let priorWitness ← priorWitness.mapUnits convert
      pure (prior value owner chain acquireTx priorWitness)

/-- Two witnesses that differ only in their units, which are related one by one. -/
inductive Related (rel : ConfirmedBundleUnit H → ConfirmedBundleUnit H → Prop) :
    WitnessV2 H → WitnessV2 H → Prop
  | genesis {value : ValueRange} {owner : Address} {chain results : List (ConfirmedBundleUnit H)}
      {anchor : GenesisAnchor H} (units : List.Forall₂ rel chain results) :
      Related rel (genesis value owner chain anchor) (genesis value owner results anchor)
  | checkpoint {value : ValueRange} {owner : Address} {chain results : List (ConfirmedBundleUnit H)}
      {anchor : Checkpoint H} (units : List.Forall₂ rel chain results) :
      Related rel (checkpoint value owner chain anchor) (checkpoint value owner results anchor)
  | prior {value : ValueRange} {owner : Address} {chain results : List (ConfirmedBundleUnit H)}
      {acquireTx : OffChainTx} {priorWitness priorResult : WitnessV2 H}
      (units : List.Forall₂ rel chain results) (priors : Related rel priorWitness priorResult) :
      Related rel (prior value owner chain acquireTx priorWitness)
        (prior value owner results acquireTx priorResult)

section Related

variable {rel other : ConfirmedBundleUnit H → ConfirmedBundleUnit H → Prop}
  {convert : ConfirmedBundleUnit H → Except String (ConfirmedBundleUnit H)}
  {witness result : WitnessV2 H}

theorem mapUnits_eq_ok :
    witness.mapUnits convert = .ok result ↔
      Related (fun unit converted => convert unit = .ok converted) witness result := by
  induction witness generalizing result with
  | genesis value owner chain anchor =>
      simp only [mapUnits, bind_eq_ok, pure_eq_ok, mapM_eq_ok]
      constructor
      · rintro ⟨results, units, rfl⟩
        exact .genesis units
      · rintro ⟨⟩
        exact ⟨_, ‹_›, rfl⟩
  | checkpoint value owner chain anchor =>
      simp only [mapUnits, bind_eq_ok, pure_eq_ok, mapM_eq_ok]
      constructor
      · rintro ⟨results, units, rfl⟩
        exact .checkpoint units
      · rintro ⟨⟩
        exact ⟨_, ‹_›, rfl⟩
  | prior value owner chain acquireTx priorWitness induction =>
      simp only [mapUnits, bind_eq_ok, pure_eq_ok, mapM_eq_ok]
      constructor
      · rintro ⟨results, units, priorResult, mapped, rfl⟩
        exact .prior units (induction.mp mapped)
      · rintro ⟨⟩
        exact ⟨_, ‹_›, _, induction.mpr ‹_›, rfl⟩

theorem Related.allUnits (related : Related rel witness result) :
    List.Forall₂ rel witness.allUnits result.allUnits := by
  induction related with
  | genesis units => exact units
  | checkpoint units => exact units
  | prior units _ induction => exact List.rel_append units induction

theorem Related.flip (related : Related rel witness result) :
    Related (fun unit source => rel source unit) result witness := by
  induction related with
  | genesis units => exact .genesis units.flip
  | checkpoint units => exact .checkpoint units.flip
  | prior units _ induction => exact .prior units.flip induction

/-- Once two witnesses have the same shape, a relation between them is one between their units. -/
theorem Related.iff_allUnits (related : Related rel witness result) :
    Related other witness result ↔ List.Forall₂ other witness.allUnits result.allUnits := by
  refine ⟨Related.allUnits, fun all_units => ?_⟩
  induction related with
  | genesis _ => exact .genesis all_units
  | checkpoint _ => exact .checkpoint all_units
  | prior units _ induction =>
      have lengths := units.length_eq
      simp only [WitnessV2.allUnits] at all_units
      have chain_units := List.forall₂_take_append _ _ _ all_units
      have prior_units := List.forall₂_drop_append _ _ _ all_units
      rw [List.take_left' lengths] at chain_units
      rw [List.drop_left' lengths] at prior_units
      exact .prior chain_units (induction prior_units)

end Related

end WitnessV2

namespace LocalValueRecord

/-- Convert every unit of a record's witness. -/
def mapUnits (convert : ConfirmedBundleUnit H → Except String (ConfirmedBundleUnit H))
    (record : LocalValueRecord H) : Except String (LocalValueRecord H) := do
  let witnessV2 ← record.witnessV2.mapUnits convert
  pure { record with witnessV2 := witnessV2 }

/-- The units that a record holds. -/
def units (record : LocalValueRecord H) : List (ConfirmedBundleUnit H) := record.witnessV2.allUnits

variable {convert other : ConfirmedBundleUnit H → Except String (ConfirmedBundleUnit H)}
  {record result : LocalValueRecord H}

theorem recordId_of_mapUnits (mapped : record.mapUnits convert = .ok result) :
    result.recordId = record.recordId := by
  simp only [mapUnits, bind_eq_ok, pure_eq_ok] at mapped
  obtain ⟨_, _, rfl⟩ := mapped
  rfl

theorem units_of_mapUnits (mapped : record.mapUnits convert = .ok result) :
    List.Forall₂ (fun unit converted => convert unit = .ok converted) record.units
      result.units := by
  simp only [mapUnits, bind_eq_ok, pure_eq_ok] at mapped
  obtain ⟨witness, witness_mapped, rfl⟩ := mapped
  exact (WitnessV2.mapUnits_eq_ok.mp witness_mapped).allUnits

/-- Another conversion has the same result exactly when it has it unit by unit. -/
theorem mapUnits_iff (mapped : record.mapUnits convert = .ok result) :
    record.mapUnits other = .ok result ↔
      List.Forall₂ (fun unit converted => other unit = .ok converted) record.units
        result.units := by
  refine ⟨units_of_mapUnits, fun all_units => ?_⟩
  simp only [mapUnits, bind_eq_ok, pure_eq_ok] at mapped ⊢
  obtain ⟨witness, witness_mapped, rfl⟩ := mapped
  have related := WitnessV2.mapUnits_eq_ok.mp witness_mapped
  exact ⟨witness, WitnessV2.mapUnits_eq_ok.mpr (related.iff_allUnits.mpr all_units), rfl⟩

/-- A conversion leads back from the result exactly when it does so unit by unit. -/
theorem mapUnits_back_iff (mapped : record.mapUnits convert = .ok result) :
    result.mapUnits other = .ok record ↔
      List.Forall₂ (fun converted unit => other converted = .ok unit) result.units
        record.units := by
  refine ⟨units_of_mapUnits, fun all_units => ?_⟩
  simp only [mapUnits, bind_eq_ok, pure_eq_ok] at mapped ⊢
  obtain ⟨witness, witness_mapped, rfl⟩ := mapped
  have related := (WitnessV2.mapUnits_eq_ok.mp witness_mapped).flip
  exact ⟨record.witnessV2, WitnessV2.mapUnits_eq_ok.mpr (related.iff_allUnits.mpr all_units), rfl⟩

end LocalValueRecord

/-! ## The database on disk -/

/-- The tables of `LocalWalletDB` as they are on disk: every receipt in them may lack its proof. -/
structure StoredWallet (H : Type) where
  /-- The tables, with compact receipts. -/
  tables : LocalWalletDB H
  /-- The proof batches, by their id. -/
  proofBatches : OrderedDict (BatchId H) (ReceiptProofBatch H)
  /-- A batch is stored under its own id. -/
  batches_keyed : ∀ entry ∈ proofBatches.entries, entry.2.batchId = entry.1

namespace StoredWallet

/-- A wallet on an empty database. -/
def new (address : Address) (genesisBlockHash : H) : StoredWallet H where
  tables := .new address genesisBlockHash
  proofBatches := ∅
  batches_keyed := List.forall_mem_nil _

variable [DecidableEq H]

/-- `get_receipt_proof_batch`. -/
def getReceiptProofBatch (store : StoredWallet H) : BatchLookup H :=
  fun batchId => store.proofBatches.get? batchId

theorem getReceiptProofBatch_keyed (store : StoredWallet H) :
    store.getReceiptProofBatch.Keyed := by
  intro batchId batch found
  exact store.batches_keyed _ ((OrderedDict.get?_eq_some_iff _ _ _).mp found)

/-- `save_receipt_proof_batch`: a batch replaces the stored one with its id. -/
def saveReceiptProofBatch (store : StoredWallet H) (batch : ReceiptProofBatch H) :
    StoredWallet H where
  tables := store.tables
  proofBatches := store.proofBatches.set batch.batchId batch
  batches_keyed := by
    rintro ⟨batchId, other⟩ member
    have found := (OrderedDict.get?_eq_some_iff _ _ _).mpr member
    rw [OrderedDict.get?_set] at found
    split_ifs at found with same
    · rw [← Option.some.inj found]
      exact same
    · exact store.getReceiptProofBatch_keyed batchId other found

variable [Crypto H]

/-! ### Reading -/

/-- `list_value_records`. -/
def listValueRecords (store : StoredWallet H) : Except String (List (LocalValueRecord H)) :=
  store.tables.records.mapM fun row =>
    row.mapUnits (ConfirmedBundleUnit.materialize store.getReceiptProofBatch)

/-- `get_receipt`. -/
def getReceipt (store : StoredWallet H) (seq : ℕ) : Except String (Option (Receipt H)) :=
  (store.tables.receipts.get? seq).mapM fun row => row.2.materialize store.getReceiptProofBatch

/-- `get_confirmed_unit_by_ref`. -/
def getConfirmedUnitByRef (store : StoredWallet H) (ref : BundleRef H) :
    Except String (Option (ConfirmedBundleUnit H)) :=
  (store.tables.confirmedUnits.get? ref).mapM fun row =>
    row.materialize store.getReceiptProofBatch

/-- `get_confirmed_unit`. -/
def getConfirmedUnit (store : StoredWallet H) (seq : ℕ) :
    Except String (Option (ConfirmedBundleUnit H)) :=
  (store.tables.getConfirmedUnit seq).mapM fun row => row.materialize store.getReceiptProofBatch

theorem nodup_of_listValueRecords {store : StoredWallet H} {records : List (LocalValueRecord H)}
    (listed : store.listValueRecords = .ok records) :
    (records.map LocalValueRecord.recordId).Nodup := by
  have same_ids : store.tables.records.map LocalValueRecord.recordId =
      records.map LocalValueRecord.recordId := by
    rw [← List.forall₂_eq_eq_eq, List.forall₂_map_left_iff, List.forall₂_map_right_iff]
    apply (mapM_eq_ok.mp listed).imp
    intro row record mapped
    exact (LocalValueRecord.recordId_of_mapUnits mapped).symm
  rw [← same_ids]
  exact store.tables.recordIds_nodup

/-- `reload_state`: the wallet reads its records. -/
def reloadState (store : StoredWallet H) : Except String (LocalWalletDB H) :=
  match listed : store.listValueRecords with
  | .error message => .error message
  | .ok records =>
      .ok { store.tables with
        records := records
        recordIds_nodup := nodup_of_listValueRecords listed }

/-! ### Writing -/

/-- A transaction stores compact rows. -/
def compactTransaction (store : StoredWallet H) :
    Transaction H → Except String (Transaction H)
  | .saveReceipt receipt bundleHash => do
      let row ← receipt.compact store.tables.address
        (store.getReceiptProofBatch receipt.headerLite.batchId)
      pure (.saveReceipt row bundleHash)
  | .saveConfirmedUnit unit => do
      let row ← unit.compact store.getReceiptProofBatch
      pure (.saveConfirmedUnit row)
  | .replaceValueRecords records => do
      let rows ← records.mapM fun record =>
        record.mapUnits (ConfirmedBundleUnit.compact store.getReceiptProofBatch)
      pure (.replaceValueRecords rows)
  | other => pure other

/-- Commit one transaction. -/
def commit (store : StoredWallet H) (transaction : Transaction H) :
    Except String (StoredWallet H) := do
  let compacted ← store.compactTransaction transaction
  let tables ← store.tables.commit compacted
  pure { store with tables := tables }

/-- Commit transactions in order; the ones before a failing one stay. -/
def commitAll (store : StoredWallet H) :
    List (Transaction H) → Except String Unit × StoredWallet H
  | [] => (.ok (), store)
  | transaction :: rest =>
      match store.commit transaction with
      | .error message => (.error message, store)
      | .ok next => next.commitAll rest

theorem commitAll_cons {store next : StoredWallet H} {transaction : Transaction H}
    {rest : List (Transaction H)} (committed : store.commit transaction = .ok next) :
    store.commitAll (transaction :: rest) = next.commitAll rest := by
  rw [commitAll, committed]

/-! ### Receipts -/

/-- The tables with the records that the wallet has in memory. -/
def opened (store : StoredWallet H) (wallet : LocalWalletDB H) : LocalWalletDB H :=
  { store.tables with
    records := wallet.records
    recordIds_nodup := wallet.recordIds_nodup }

/-- Read the unit before a receipt, which may raise. -/
def readPreviousUnit (store : StoredWallet H) (receipt : Receipt H) :
    Except String (Option (ConfirmedBundleUnit H)) :=
  if receipt.seq = 1 then pure none else store.getConfirmedUnit (receipt.seq - 1)

/-- The checks of `on_receipt_confirmed` and the transactions that follow. -/
def planReceipt (store : StoredWallet H) (wallet : LocalWalletDB H) (receipt : Receipt H) :
    Except String (LocalWalletDB.Planned H (ConfirmedBundleUnit H)) := do
  let _ ← demand ((store.opened wallet).getPendingBundle receipt.seq)
    "no pending bundle matches receipt seq"
  require ((store.opened wallet).knowsCanonicalHeader receipt.headerLite = true)
    "receipt header is not known canonical"
  let _ ← store.readPreviousUnit receipt
  (store.opened wallet).onReceiptConfirmed receipt

/-- `on_receipt_confirmed`, which reloads the records at its end. -/
def onReceiptConfirmed (store : StoredWallet H) (wallet : LocalWalletDB H) (receipt : Receipt H) :
    Except String (ConfirmedBundleUnit H) × StoredWallet H :=
  match store.planReceipt wallet receipt with
  | .error message => (.error message, store)
  | .ok (unit, transactions) =>
      match store.commitAll transactions with
      | (.error message, after) => (.error message, after)
      | (.ok (), after) => (after.reloadState.map fun _ => unit, after)

/-- `observe_canonical_block`. -/
def observeCanonicalBlock (store : StoredWallet H) (block : BlockV2 H) : StoredWallet H :=
  { store with
    tables := { store.tables with
      canonicalHeaders := store.tables.canonicalHeaders.set block.header.height
        ⟨block.header.height, block.blockHash, block.header.stateRoot⟩ } }

end StoredWallet

end EZChain
