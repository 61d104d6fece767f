import EZChain.Host.ReceiptMessages

/-!
# Stored proofs under messages

The batch of a receipt message may turn stored receipts, units and units in records into other
objects, because their rows are read with it from then on.  They are kept exactly as long as it
agrees with the rows that the message leaves in place.
-/

namespace EZChain

open Checks

/-! ## Tables whose rows are read -/

section Tables

variable {κ ν α : Type} [DecidableEq κ] {table : OrderedDict κ ν}
  {readBefore readAfter : ν → Except String α}

theorem kept_iff :
    (∀ key object, (table.get? key).mapM readBefore = .ok (some object) →
      (table.get? key).mapM readAfter = .ok (some object)) ↔
      ∀ key row, table.get? key = some row → ∀ object, readBefore row = .ok object →
        readAfter row = .ok object := by
  simp only [optionMapM_eq_ok_some]
  constructor
  · intro kept key row found object read
    obtain ⟨other, other_found, other_read⟩ := kept key object ⟨row, found, read⟩
    obtain rfl := Option.some.inj (found.symm.trans other_found)
    exact other_read
  · rintro kept key object ⟨row, found, read⟩
    exact ⟨row, found, kept key row found object read⟩

/-- Under a written key the object must be the written one. -/
theorem kept_set_iff {written : κ} {newRow : ν} {newObject : α}
    (read_new : readAfter newRow = .ok newObject) :
    (∀ key object, (table.get? key).mapM readBefore = .ok (some object) →
      ((table.set written newRow).get? key).mapM readAfter = .ok (some object)) ↔
      (∀ key row, table.get? key = some row → written ≠ key → ∀ object,
        readBefore row = .ok object → readAfter row = .ok object) ∧
        ∀ object, (table.get? written).mapM readBefore = .ok (some object) →
          object = newObject := by
  simp only [optionMapM_eq_ok_some]
  constructor
  · intro kept
    constructor
    · intro key row found differs object read
      obtain ⟨other, other_found, other_read⟩ := kept key object ⟨row, found, read⟩
      rw [OrderedDict.get?_set_of_ne _ differs] at other_found
      obtain rfl := Option.some.inj (found.symm.trans other_found)
      exact other_read
    · rintro object ⟨row, found, read⟩
      obtain ⟨other, other_found, other_read⟩ := kept written object ⟨row, found, read⟩
      rw [OrderedDict.get?_set_self] at other_found
      obtain rfl := Option.some.inj other_found
      exact Except.ok.inj (other_read.symm.trans read_new)
  · rintro ⟨others, overwritten⟩ key object ⟨row, found, read⟩
    by_cases same : written = key
    · subst same
      obtain rfl := overwritten object ⟨row, found, read⟩
      exact ⟨newRow, OrderedDict.get?_set_self _ _ _, read_new⟩
    · refine ⟨row, ?_, others key row found same object read⟩
      rw [OrderedDict.get?_set_of_ne _ same]
      exact found

end Tables

namespace StoredWallet

variable {H : Type} [Crypto H] [DecidableEq H]

/-! ## Stored objects before and after a message -/

/-- The record that a row is read as. -/
def readRecord (store : StoredWallet H) (row : LocalValueRecord H) :
    Except String (LocalValueRecord H) :=
  row.mapUnits (ConfirmedBundleUnit.materialize store.getReceiptProofBatch)

/-- Every stored receipt, every stored unit and every unit in a stored record is read afterwards as
it was before. -/
structure ProofsKept (before after : StoredWallet H) : Prop where
  receipts : ∀ seq receipt, before.getReceipt seq = .ok (some receipt) →
    after.getReceipt seq = .ok (some receipt)
  confirmedUnits : ∀ ref unit, before.getConfirmedUnitByRef ref = .ok (some unit) →
    after.getConfirmedUnitByRef ref = .ok (some unit)
  recordUnits : ∀ row ∈ before.tables.records, ∀ record, before.readRecord row = .ok record →
    ∃ newRow ∈ after.tables.records, ∃ newRecord, after.readRecord newRow = .ok newRecord ∧
      newRecord.recordId = record.recordId ∧ record.units <:+ newRecord.units

/-- The message writes its receipt for a pending bundle. -/
structure Writes (store : StoredWallet H) (wallet : LocalWalletDB H) (autoAcceptReceipts : Bool)
    (message : ReceiptMessage H) (found : Option (BlockV2 H)) (receipt : Receipt H)
    (context : PendingBundleContext H) : Prop where
  autoAccept : autoAcceptReceipts = true
  read : (store.readReceipt message).1 = .ok receipt
  writable : ((store.afterBatch message).observeHeader receipt.headerLite found).Writable wallet
    receipt context

/-- The message also writes the records. -/
def Rewrites (store : StoredWallet H) (wallet : LocalWalletDB H) (autoAcceptReceipts : Bool)
    (message : ReceiptMessage H) (found : Option (BlockV2 H)) : Prop :=
  ∃ receipt context, store.Writes wallet autoAcceptReceipts message found receipt context ∧
    (store.afterBatch message).Rewritable wallet receipt context

/-- The saved batch agrees with every row that the message does not write, and what it writes over a
row is what the row was read as. -/
structure MessageKeeps (store : StoredWallet H) (wallet : LocalWalletDB H)
    (autoAcceptReceipts : Bool) (message : ReceiptMessage H) (found : Option (BlockV2 H)) :
    Prop where
  receipts : ∀ seq row, store.tables.receipts.get? seq = some row →
    (∀ receipt context, store.Writes wallet autoAcceptReceipts message found receipt context →
      receipt.seq ≠ seq) → store.Agrees message row.2
  writtenReceipt : ∀ receipt context old,
    store.Writes wallet autoAcceptReceipts message found receipt context →
      store.getReceipt receipt.seq = .ok (some old) → old = receipt
  confirmedUnits : ∀ ref row, store.tables.confirmedUnits.get? ref = some row →
    (∀ receipt context, store.Writes wallet autoAcceptReceipts message found receipt context →
      confirmedRef (LocalWalletDB.confirmedUnit receipt context) ≠ ref) →
      store.Agrees message row.receipt
  writtenUnit : ∀ receipt context old,
    store.Writes wallet autoAcceptReceipts message found receipt context →
      store.getConfirmedUnitByRef (confirmedRef (LocalWalletDB.confirmedUnit receipt context)) =
        .ok (some old) → old = LocalWalletDB.confirmedUnit receipt context
  /-- Records that are written back hold their units with proofs, whatever the batch says. -/
  recordUnits : ∀ row ∈ store.tables.records, ∀ unit ∈ row.units,
    (store.Rewrites wallet autoAcceptReceipts message found →
      unit.receipt.materialize store.getReceiptProofBatch = .ok unit.receipt) →
      store.Agrees message unit.receipt

section Reading

variable {store : StoredWallet H}

theorem reloadState_eq_ok {wallet : LocalWalletDB H} (loaded : store.reloadState = .ok wallet) :
    store.listValueRecords = .ok wallet.records := by
  rw [reloadState] at loaded
  split at loaded
  · cases loaded
  · next records listed =>
      obtain rfl := Except.ok.inj loaded
      exact listed

theorem materialize_unit_eq_ok {lookup : BatchLookup H} {unit full : ConfirmedBundleUnit H} :
    unit.materialize lookup = .ok full ↔
      unit.receipt.materialize lookup = .ok full.receipt ∧
        full.bundleSidecar = unit.bundleSidecar := by
  simp only [ConfirmedBundleUnit.materialize, bind_eq_ok, pure_eq_ok]
  constructor
  · rintro ⟨receipt, materialized, rfl⟩
    exact ⟨materialized, rfl⟩
  · rintro ⟨materialized, sidecar_eq⟩
    refine ⟨full.receipt, materialized, ?_⟩
    rw [← sidecar_eq]

theorem agrees_unit_iff {message : ReceiptMessage H} {unit : ConfirmedBundleUnit H} :
    store.Agrees message unit.receipt ↔
      ∀ full, unit.materialize store.getReceiptProofBatch = .ok full →
        unit.materialize (store.afterBatch message).getReceiptProofBatch = .ok full := by
  rw [agrees_iff]
  constructor
  · intro agrees full materialized
    obtain ⟨receipt_read, sidecar_eq⟩ := materialize_unit_eq_ok.mp materialized
    exact materialize_unit_eq_ok.mpr ⟨agrees _ receipt_read, sidecar_eq⟩
  · intro agrees receipt materialized
    have unit_read := agrees ⟨receipt, unit.bundleSidecar⟩
      (materialize_unit_eq_ok.mpr ⟨materialized, rfl⟩)
    exact (materialize_unit_eq_ok.mp unit_read).1

theorem readRecord_afterBatch_iff {message : ReceiptMessage H} {row record : LocalValueRecord H}
    (read : store.readRecord row = .ok record) :
    (store.afterBatch message).readRecord row = .ok record ↔
      ∀ unit ∈ row.units, store.Agrees message unit.receipt := by
  rw [readRecord, LocalValueRecord.mapUnits_iff read,
    forall₂_ok_iff (LocalValueRecord.units_of_mapUnits read)]
  exact forall₂_congr fun unit _ => agrees_unit_iff.symm

end Reading

/-! ## The outcomes of a message -/

/-- Two databases with the same receipts, units, pending bundles and records. -/
structure SameRows (store other : StoredWallet H) : Prop where
  lookup : other.getReceiptProofBatch = store.getReceiptProofBatch
  address : other.tables.address = store.tables.address
  receipts : other.tables.receipts = store.tables.receipts
  confirmedUnits : other.tables.confirmedUnits = store.tables.confirmedUnits
  pendingBundles : other.tables.pendingBundles = store.tables.pendingBundles
  records : other.tables.records = store.tables.records

omit [Crypto H] in
theorem sameRows_observeHeader (store : StoredWallet H) (header : HeaderLite H)
    (found : Option (BlockV2 H)) : store.SameRows (store.observeHeader header found) := by
  unfold observeHeader
  split
  · exact ⟨rfl, rfl, rfl, rfl, rfl, rfl⟩
  · split
    · exact ⟨rfl, rfl, rfl, rfl, rfl, rfl⟩
    · split_ifs <;> exact ⟨rfl, rfl, rfl, rfl, rfl, rfl⟩

section Outcomes

variable {store : StoredWallet H} {wallet : LocalWalletDB H} {autoAcceptReceipts : Bool}
  {message : ReceiptMessage H} {found : Option (BlockV2 H)} {receipt : Receipt H}
  {context : PendingBundleContext H}

theorem onReceipt_of_not_loaded {error : String} (failed : store.reloadState = .error error) :
    (store.onReceipt autoAcceptReceipts message found).2 = store := by
  simp only [onReceipt, failed]

/-- A message that writes no receipt leaves all rows alone, and is rejected unless receipts are only
looked at. -/
theorem onReceipt_of_not_writes (loaded : store.reloadState = .ok wallet)
    (not_writes : ∀ receipt context,
      ¬ store.Writes wallet autoAcceptReceipts message found receipt context) :
    (store.afterBatch message).SameRows (store.onReceipt autoAcceptReceipts message found).2 ∧
      (autoAcceptReceipts = true →
        ∃ error, (store.onReceipt autoAcceptReceipts message found).1 = .rejected error) := by
  have unchanged : (store.afterBatch message).SameRows (store.afterBatch message) :=
    ⟨rfl, rfl, rfl, rfl, rfl, rfl⟩
  rcases read_eq : store.readReceipt message with ⟨outcome, saved⟩
  have saved_eq : saved = store.afterBatch message := by
    rw [← readReceipt_snd, read_eq]
  subst saved_eq
  cases outcome with
  | error error =>
      simp only [onReceipt, loaded, read_eq]
      exact ⟨unchanged, fun _ => ⟨error, rfl⟩⟩
  | ok receipt =>
      cases autoAcceptReceipts with
      | false =>
          simp only [onReceipt, loaded, read_eq, Bool.false_eq_true, if_false]
          exact ⟨unchanged, fun accepts => accepts.elim⟩
      | true =>
          have not_writable : ∀ context,
              ¬ ((store.afterBatch message).observeHeader receipt.headerLite found).Writable
                wallet receipt context :=
            fun context writable => not_writes receipt context ⟨rfl, by rw [read_eq], writable⟩
          obtain ⟨error, failed⟩ := onReceiptConfirmed_of_not_writable not_writable
          simp only [onReceipt, loaded, read_eq, if_true, failed]
          exact ⟨sameRows_observeHeader _ _ _, fun _ => ⟨error, rfl⟩⟩

theorem Writes.onReceipt_eq (loaded : store.reloadState = .ok wallet)
    (writes : store.Writes wallet autoAcceptReceipts message found receipt context) :
    (store.onReceipt autoAcceptReceipts message found).2 =
      (((store.afterBatch message).observeHeader receipt.headerLite found).onReceiptConfirmed
        wallet receipt).2 := by
  have read := writes.read
  rcases read_eq : store.readReceipt message with ⟨outcome, saved⟩
  have saved_eq : saved = store.afterBatch message := by
    rw [← readReceipt_snd, read_eq]
  subst saved_eq
  rw [read_eq] at read
  subst read
  simp only [onReceipt, loaded, read_eq, writes.autoAccept, if_true]
  rcases ((store.afterBatch message).observeHeader receipt.headerLite found).onReceiptConfirmed
    wallet receipt with ⟨_ | _, _⟩ <;> rfl

/-- At most one receipt is written. -/
theorem Writes.unique {other : Receipt H} {otherContext : PendingBundleContext H}
    (writes : store.Writes wallet autoAcceptReceipts message found receipt context)
    (writes_other : store.Writes wallet autoAcceptReceipts message found other otherContext) :
    other = receipt ∧ otherContext = context := by
  obtain rfl : other = receipt := Except.ok.inj (writes_other.read.symm.trans writes.read)
  have pending := writes.writable.checked.pending
  have other_pending := writes_other.writable.checked.pending
  exact ⟨rfl, Option.some.inj (other_pending.symm.trans pending)⟩

/-- The rows that a message leaves behind when it writes its receipt. -/
structure Wrote (store after : StoredWallet H) {receipt : Receipt H}
    {context : PendingBundleContext H} (rows : ReceiptRows store receipt context) : Prop where
  lookup : after.getReceiptProofBatch = store.getReceiptProofBatch
  receipts : after.tables.receipts = store.tables.receipts.set receipt.seq
    (receiptRef receipt context.bundleHash, rows.receiptRow)
  confirmedUnits : after.tables.confirmedUnits = store.tables.confirmedUnits.set
    (confirmedRef (LocalWalletDB.confirmedUnit receipt context)) rows.unitRow

theorem ReceiptRows.materialize_receiptRow (rows : ReceiptRows store receipt context)
    {proof : SparseMerkleProof H} (proved : receipt.proof = .single proof) :
    rows.receiptRow.materialize store.getReceiptProofBatch = .ok receipt :=
  Receipt.materialize_of_compact store.getReceiptProofBatch_keyed proved rows.receipt_compacted

theorem ReceiptRows.materialize_unitRow (rows : ReceiptRows store receipt context)
    {proof : SparseMerkleProof H} (proved : receipt.proof = .single proof) :
    rows.unitRow.materialize store.getReceiptProofBatch =
      .ok (LocalWalletDB.confirmedUnit receipt context) := by
  have unit_compacted := rows.unit_compacted
  simp only [ConfirmedBundleUnit.compact, bind_eq_ok, pure_eq_ok] at unit_compacted
  obtain ⟨unitReceipt, compacted, unitRow_eq⟩ := unit_compacted
  refine materialize_unit_eq_ok.mpr ⟨?_, ?_⟩
  · rw [← unitRow_eq]
    exact Receipt.materialize_of_compact store.getReceiptProofBatch_keyed proved compacted
  · rw [← unitRow_eq]

end Outcomes

/-! ## Units in records -/

section Records

variable {store after : StoredWallet H} {wallet : LocalWalletDB H} {message : ReceiptMessage H}
  {receipt : Receipt H} {context : PendingBundleContext H}

omit [Crypto H] [DecidableEq H] in
theorem eq_of_recordId_eq {rows : List (LocalValueRecord H)}
    (nodup : (rows.map LocalValueRecord.recordId).Nodup) {row other : LocalValueRecord H}
    (member : row ∈ rows) (other_member : other ∈ rows) (same : row.recordId = other.recordId) :
    row = other :=
  List.inj_on_of_nodup_map nodup member other_member same

/-- Records that are left alone keep their units exactly when the saved batch agrees with all of
them. -/
theorem recordUnits_iff_of_unchanged (loaded : store.listValueRecords = .ok wallet.records)
    (lookup : after.getReceiptProofBatch = (store.afterBatch message).getReceiptProofBatch)
    (records : after.tables.records = store.tables.records) :
    (∀ row ∈ store.tables.records, ∀ record, store.readRecord row = .ok record →
      ∃ newRow ∈ after.tables.records, ∃ newRecord, after.readRecord newRow = .ok newRecord ∧
        newRecord.recordId = record.recordId ∧ record.units <:+ newRecord.units) ↔
      ∀ row ∈ store.tables.records, ∀ unit ∈ row.units, store.Agrees message unit.receipt := by
  have same_reading : after.readRecord = (store.afterBatch message).readRecord := by
    unfold readRecord
    rw [lookup]
  rw [records, same_reading]
  constructor
  · intro kept row member
    obtain ⟨record, _, read⟩ := exists_mem_of_mapM loaded member
    obtain ⟨newRow, new_member, newRecord, new_read, same_id, suffix⟩ := kept row member record read
    obtain rfl : newRow = row := by
      apply eq_of_recordId_eq store.tables.recordIds_nodup new_member member
      rw [← LocalValueRecord.recordId_of_mapUnits new_read, same_id,
        LocalValueRecord.recordId_of_mapUnits read]
    have read_units := LocalValueRecord.units_of_mapUnits read
    have new_units := LocalValueRecord.units_of_mapUnits new_read
    have units_eq : record.units = newRecord.units :=
      suffix.eq_of_length (read_units.length_eq.symm.trans new_units.length_eq)
    rw [← readRecord_afterBatch_iff read, readRecord, LocalValueRecord.mapUnits_iff read, units_eq]
    exact new_units
  · intro agrees row member record read
    refine ⟨row, member, record, ?_, rfl, List.suffix_rfl⟩
    exact (readRecord_afterBatch_iff read).mpr (agrees row member)

/-- A record that was written is read back when its units without a proof still have none. -/
theorem readRecord_of_compacted_iff {record row : LocalValueRecord H}
    (compacted : record.mapUnits (ConfirmedBundleUnit.compact store.getReceiptProofBatch) =
      .ok row) :
    store.readRecord row = .ok record ↔
      ∀ unit ∈ record.units, (∃ ref, unit.receipt.proof = .batchRef ref) →
        unit.materialize store.getReceiptProofBatch = .ok unit := by
  rw [readRecord, LocalValueRecord.mapUnits_back_iff compacted]
  apply forall₂_iff_forall_mem (LocalValueRecord.units_of_mapUnits compacted).flip
  intro unitRow unit unit_compacted
  have unit_compacted : unit.compact store.getReceiptProofBatch = .ok unitRow := unit_compacted
  simp only [ConfirmedBundleUnit.compact, bind_eq_ok, pure_eq_ok] at unit_compacted
  obtain ⟨receiptRow, receipt_compacted, rfl⟩ := unit_compacted
  cases proof_eq : unit.receipt.proof with
  | single proof =>
      refine iff_of_true (materialize_unit_eq_ok.mpr ⟨?_, rfl⟩) ?_
      · exact Receipt.materialize_of_compact store.getReceiptProofBatch_keyed proof_eq
          receipt_compacted
      · rintro ⟨ref, ref_eq⟩
        cases ref_eq
  | batchRef ref =>
      obtain rfl := Receipt.compact_of_batchRef proof_eq receipt_compacted
      exact ⟨fun read _ => read, fun read => read ⟨ref, rfl⟩⟩

omit [Crypto H] [DecidableEq H] in
theorem units_suffix_confirmRecord (unit : ConfirmedBundleUnit H)
    (pendingRecordIds outgoingRecordIds : List String) (record : LocalValueRecord H) :
    (LocalWalletDB.confirmRecord unit pendingRecordIds outgoingRecordIds record).units =
        record.units ∨
      (LocalWalletDB.confirmRecord unit pendingRecordIds outgoingRecordIds record).units =
        unit :: record.units := by
  have appended : ∀ status, (LocalWalletDB.appendToRecord unit status record).units =
      unit :: record.units := by
    intro status
    unfold LocalValueRecord.units LocalWalletDB.appendToRecord
    cases record.witnessV2 <;> rfl
  rw [LocalWalletDB.confirmRecord]
  split_ifs
  · exact .inl rfl
  · exact .inr (appended _)
  · exact .inr (appended _)
  · exact .inl rfl
  · exact .inl rfl
  · exact .inr (appended _)

theorem eq_of_materialize_unit {lookup : BatchLookup H} {row unit : ConfirmedBundleUnit H}
    {ref : ReceiptProofRef H} (read : row.materialize lookup = .ok unit)
    (unproved : unit.receipt.proof = .batchRef ref) : unit = row := by
  obtain ⟨receipt_read, sidecar_eq⟩ := materialize_unit_eq_ok.mp read
  have receipt_eq := Receipt.eq_of_materialize_batchRef receipt_read unproved
  cases unit
  cases row
  simp only at receipt_eq sidecar_eq
  rw [receipt_eq, sidecar_eq]

/-- Records that are written back keep their units exactly when the saved batch agrees with the
units that were read without a proof. -/
theorem recordUnits_iff_of_rewritten (loaded : store.listValueRecords = .ok wallet.records)
    (lookup : after.getReceiptProofBatch = (store.afterBatch message).getReceiptProofBatch)
    {recordRows : List (LocalValueRecord H)}
    (compacted : (confirmedRecords wallet receipt context).mapM (fun record =>
      record.mapUnits (ConfirmedBundleUnit.compact after.getReceiptProofBatch)) = .ok recordRows)
    (records : ∀ row, row ∈ after.tables.records ↔ row ∈ recordRows)
    {proof : SparseMerkleProof H} (proved : receipt.proof = .single proof) :
    (∀ row ∈ store.tables.records, ∀ record, store.readRecord row = .ok record →
      ∃ newRow ∈ after.tables.records, ∃ newRecord, after.readRecord newRow = .ok newRecord ∧
        newRecord.recordId = record.recordId ∧ record.units <:+ newRecord.units) ↔
      ∀ row ∈ store.tables.records, ∀ unit ∈ row.units,
        unit.receipt.materialize store.getReceiptProofBatch = .ok unit.receipt →
          store.Agrees message unit.receipt := by
  have exists_newRow : ∀ record ∈ wallet.records, ∃ newRow ∈ recordRows,
      (LocalWalletDB.confirmRecord (LocalWalletDB.confirmedUnit receipt context)
        context.pendingRecordIds context.outgoingRecordIds record).mapUnits
          (ConfirmedBundleUnit.compact after.getReceiptProofBatch) = .ok newRow :=
    fun record member => exists_mem_of_mapM compacted (List.mem_map_of_mem member)
  constructor
  · intro kept row member unit unit_mem unread
    rw [agrees_unit_iff]
    have unit_read : unit.materialize store.getReceiptProofBatch = .ok unit :=
      materialize_unit_eq_ok.mpr ⟨unread, rfl⟩
    intro full full_read
    obtain rfl : unit = full := Except.ok.inj (unit_read.symm.trans full_read)
    cases proof_eq : unit.receipt.proof with
    | single proof =>
        exact materialize_unit_eq_ok.mpr ⟨Receipt.materialize_of_single proof_eq, rfl⟩
    | batchRef ref =>
        obtain ⟨record, record_mem, read⟩ := exists_mem_of_mapM loaded member
        obtain ⟨newRow, new_mem, new_compacted⟩ := exists_newRow record record_mem
        obtain ⟨keptRow, kept_mem, keptRecord, kept_read, same_id, suffix⟩ :=
          kept row member record read
        obtain rfl : keptRow = newRow := by
          refine eq_of_recordId_eq after.tables.recordIds_nodup kept_mem
            ((records newRow).mpr new_mem) ?_
          rw [← LocalValueRecord.recordId_of_mapUnits kept_read, same_id,
            LocalValueRecord.recordId_of_mapUnits new_compacted,
            LocalWalletDB.recordId_confirmRecord]
        -- Both the written record and the record read back end in the old units.
        have round := forall₂_comp (LocalValueRecord.units_of_mapUnits new_compacted)
          (LocalValueRecord.units_of_mapUnits kept_read)
        obtain ⟨front, front_eq⟩ := suffix
        obtain ⟨newFront, new_eq⟩ : ∃ newFront, newFront ++ record.units =
            (LocalWalletDB.confirmRecord (LocalWalletDB.confirmedUnit receipt context)
              context.pendingRecordIds context.outgoingRecordIds record).units := by
          rcases units_suffix_confirmRecord (LocalWalletDB.confirmedUnit receipt context)
            context.pendingRecordIds context.outgoingRecordIds record with same | appended
          · exact ⟨[], same.symm⟩
          · exact ⟨[_], appended.symm⟩
        rw [← new_eq, ← front_eq] at round
        have lengths : newFront.length = front.length := by
          have total := round.length_eq
          rw [List.length_append, List.length_append] at total
          exact Nat.add_right_cancel total
        have old_round := List.forall₂_drop_append _ _ _ round
        rw [List.drop_left' lengths] at old_round
        obtain ⟨row_unit, row_unit_mem, row_unit_read⟩ := exists_mem_of_mapM
          (mapM_eq_ok.mpr (LocalValueRecord.units_of_mapUnits read)) unit_mem
        obtain rfl : unit = row_unit := Except.ok.inj (unit_read.symm.trans row_unit_read)
        obtain ⟨unitRow, unit_compacted, unitRow_read⟩ :=
          List.forall₂_same.mp old_round unit row_unit_mem
        simp only [ConfirmedBundleUnit.compact, bind_eq_ok, pure_eq_ok] at unit_compacted
        obtain ⟨receiptRow, receipt_compacted, rfl⟩ := unit_compacted
        obtain rfl := Receipt.compact_of_batchRef proof_eq receipt_compacted
        rw [← lookup]
        exact unitRow_read
  · intro agrees row member record read
    obtain ⟨other, record_mem, other_read⟩ := exists_mem_of_mapM loaded member
    obtain rfl : record = other := Except.ok.inj (read.symm.trans other_read)
    obtain ⟨newRow, new_mem, new_compacted⟩ := exists_newRow record record_mem
    refine ⟨newRow, (records newRow).mpr new_mem, _,
      (readRecord_of_compacted_iff new_compacted).mpr ?_,
      LocalWalletDB.recordId_confirmRecord _ _ _ _, ?_⟩
    · rintro unit unit_mem ⟨ref, unproved⟩
      have old_mem : unit ∈ record.units := by
        rcases units_suffix_confirmRecord (LocalWalletDB.confirmedUnit receipt context)
          context.pendingRecordIds context.outgoingRecordIds record with same | appended
        · rwa [← same]
        · rw [appended] at unit_mem
          apply (List.mem_cons.mp unit_mem).resolve_left
          rintro rfl
          cases proved.symm.trans unproved
      obtain ⟨rowUnit, rowUnit_mem, rowUnit_read⟩ := exists_mem_of_mapM_result
        (mapM_eq_ok.mpr (LocalValueRecord.units_of_mapUnits read)) old_mem
      obtain rfl := eq_of_materialize_unit rowUnit_read unproved
      have unread := (materialize_unit_eq_ok.mp rowUnit_read).1
      rw [lookup]
      exact agrees_unit_iff.mp (agrees row member _ rowUnit_mem unread) _ rowUnit_read
    · rcases units_suffix_confirmRecord (LocalWalletDB.confirmedUnit receipt context)
        context.pendingRecordIds context.outgoingRecordIds record with same | appended
      · rw [same]
      · rw [appended]
        exact List.suffix_cons _ _

end Records

/-! ## When a message keeps the stored proofs -/

section Main

variable {store after : StoredWallet H} {wallet : LocalWalletDB H} {autoAcceptReceipts : Bool}
  {message : ReceiptMessage H} {found : Option (BlockV2 H)} {receipt : Receipt H}
  {context : PendingBundleContext H}

/-- What a message that writes its receipt leaves behind. -/
theorem Writes.exists_wrote (loaded : store.reloadState = .ok wallet)
    (writes : store.Writes wallet autoAcceptReceipts message found receipt context) :
    let written := (store.afterBatch message).observeHeader receipt.headerLite found
    let after := (store.onReceipt autoAcceptReceipts message found).2
    ∃ rows : ReceiptRows written receipt context, written.Wrote after rows ∧
      (¬ (store.afterBatch message).Rewritable wallet receipt context →
        after.tables.records = store.tables.records) ∧
      ((store.afterBatch message).Rewritable wallet receipt context → ∃ recordRows,
        (confirmedRecords wallet receipt context).mapM (fun record =>
          record.mapUnits (ConfirmedBundleUnit.compact after.getReceiptProofBatch)) =
            .ok recordRows ∧
        (∀ row, row ∈ after.tables.records ↔ row ∈ recordRows)) := by
  intro written after
  have same : (store.afterBatch message).SameRows written := sameRows_observeHeader _ _ _
  have after_eq : after = (written.onReceiptConfirmed wallet receipt).2 :=
    writes.onReceipt_eq loaded
  have rewritable_iff : (store.afterBatch message).Rewritable wallet receipt context ↔
      written.Rewritable wallet receipt context := by
    unfold Rewritable
    rw [same.lookup]
  obtain ⟨rows⟩ := writes.writable.exists_rows
  refine ⟨rows, ?_⟩
  by_cases rewritable : written.Rewritable wallet receipt context
  · obtain ⟨recordRows, compacted⟩ := rewritable
    have confirmed := writes.writable.onReceiptConfirmed_of_rewritable rows compacted
    have after_rows : after = (written.withReceipt rows).withRecordRows recordRows
        (nodup_of_confirmedRecords compacted) := by
      rw [after_eq, confirmed]
    refine ⟨⟨?_, ?_, ?_⟩, fun not_rewritable => ?_, fun _ => ⟨recordRows, ?_, ?_⟩⟩
    · rw [after_rows]
      rfl
    · rw [after_rows]
      rfl
    · rw [after_rows]
      rfl
    · exact absurd (rewritable_iff.mpr ⟨recordRows, compacted⟩) not_rewritable
    · rw [after_rows]
      exact compacted
    · intro row
      rw [after_rows]
      exact List.mem_insertionSort _
  · obtain ⟨error, failed⟩ :=
      writes.writable.onReceiptConfirmed_of_not_rewritable rows rewritable
    have after_rows : after = written.withReceipt rows := by
      rw [after_eq, failed]
    refine ⟨⟨?_, ?_, ?_⟩, fun _ => ?_, fun other => ?_⟩
    · rw [after_rows]
      rfl
    · rw [after_rows]
      rfl
    · rw [after_rows]
      rfl
    · rw [after_rows]
      have records_eq := same.records
      rwa [tables_afterBatch] at records_eq
    · exact absurd (rewritable_iff.mp other) rewritable

theorem receipts_kept_iff_of_sameRows (same : (store.afterBatch message).SameRows after) :
    (∀ seq receipt, store.getReceipt seq = .ok (some receipt) →
      after.getReceipt seq = .ok (some receipt)) ↔
      ∀ seq row, store.tables.receipts.get? seq = some row → store.Agrees message row.2 := by
  simp only [getReceipt, same.lookup, same.receipts, tables_afterBatch, agrees_iff]
  exact kept_iff

theorem confirmedUnits_kept_iff_of_sameRows (same : (store.afterBatch message).SameRows after) :
    (∀ ref unit, store.getConfirmedUnitByRef ref = .ok (some unit) →
      after.getConfirmedUnitByRef ref = .ok (some unit)) ↔
      ∀ ref row, store.tables.confirmedUnits.get? ref = some row →
        store.Agrees message row.receipt := by
  simp only [getConfirmedUnitByRef, same.lookup, same.confirmedUnits, tables_afterBatch,
    agrees_unit_iff]
  exact kept_iff

section Written

variable {written : StoredWallet H} {rows : ReceiptRows written receipt context}

theorem receipts_kept_iff_of_wrote (same : (store.afterBatch message).SameRows written)
    (wrote : written.Wrote after rows) {proof : SparseMerkleProof H}
    (proved : receipt.proof = .single proof) :
    (∀ seq receipt, store.getReceipt seq = .ok (some receipt) →
      after.getReceipt seq = .ok (some receipt)) ↔
      (∀ seq row, store.tables.receipts.get? seq = some row → receipt.seq ≠ seq →
        store.Agrees message row.2) ∧
        ∀ old, store.getReceipt receipt.seq = .ok (some old) → old = receipt := by
  have read_new := rows.materialize_receiptRow proved
  simp only [getReceipt, wrote.lookup, wrote.receipts, same.receipts, tables_afterBatch,
    agrees_iff]
  rw [← same.lookup]
  exact kept_set_iff read_new

theorem confirmedUnits_kept_iff_of_wrote (same : (store.afterBatch message).SameRows written)
    (wrote : written.Wrote after rows) {proof : SparseMerkleProof H}
    (proved : receipt.proof = .single proof) :
    let ref := confirmedRef (LocalWalletDB.confirmedUnit receipt context)
    (∀ ref unit, store.getConfirmedUnitByRef ref = .ok (some unit) →
      after.getConfirmedUnitByRef ref = .ok (some unit)) ↔
      (∀ other row, store.tables.confirmedUnits.get? other = some row → ref ≠ other →
        store.Agrees message row.receipt) ∧
        ∀ old, store.getConfirmedUnitByRef ref = .ok (some old) →
          old = LocalWalletDB.confirmedUnit receipt context := by
  intro ref
  have read_new := rows.materialize_unitRow proved
  simp only [getConfirmedUnitByRef, wrote.lookup, wrote.confirmedUnits, same.confirmedUnits,
    tables_afterBatch, agrees_unit_iff]
  rw [← same.lookup]
  exact kept_set_iff read_new

end Written

theorem listValueRecords_of_unchanged (loaded : store.reloadState = .ok wallet)
    (lookup : after.getReceiptProofBatch = (store.afterBatch message).getReceiptProofBatch)
    (records : after.tables.records = store.tables.records)
    (agrees : ∀ row ∈ store.tables.records, ∀ unit ∈ row.units,
      store.Agrees message unit.receipt) :
    after.listValueRecords = store.listValueRecords := by
  have listed := reloadState_eq_ok loaded
  rw [listed, listValueRecords, records, lookup, mapM_eq_ok]
  refine (forall₂_ok_iff (mapM_eq_ok.mp listed)).mpr fun row member record read => ?_
  exact (readRecord_afterBatch_iff read).mpr (agrees row member)

/-- A message that writes the records is applied when they can be read back. -/
theorem Writes.applied_of_rewritten (loaded : store.reloadState = .ok wallet)
    (writes : store.Writes wallet autoAcceptReceipts message found receipt context)
    (rewritable : (store.afterBatch message).Rewritable wallet receipt context)
    (readable : ∃ records,
      (store.onReceipt autoAcceptReceipts message found).2.listValueRecords = .ok records) :
    (store.onReceipt autoAcceptReceipts message found).1 = .applied := by
  have same : (store.afterBatch message).SameRows
      ((store.afterBatch message).observeHeader receipt.headerLite found) :=
    sameRows_observeHeader _ _ _
  obtain ⟨rows⟩ := writes.writable.exists_rows
  obtain ⟨recordRows, compacted⟩ := rewritable
  rw [← same.lookup] at compacted
  have confirmed := writes.writable.onReceiptConfirmed_of_rewritable rows compacted
  have after_eq := writes.onReceipt_eq loaded
  rw [after_eq, confirmed] at readable
  obtain ⟨records, listed⟩ := readable
  have reloaded : ∃ reread, (((store.afterBatch message).observeHeader receipt.headerLite
      found).withReceipt rows |>.withRecordRows recordRows
        (nodup_of_confirmedRecords compacted)).reloadState = .ok reread := by
    rw [reloadState]
    split
    · next failed => cases listed.symm.trans failed
    · exact ⟨_, rfl⟩
  obtain ⟨reread, reloaded⟩ := reloaded
  have read := writes.read
  rcases read_eq : store.readReceipt message with ⟨outcome, saved⟩
  have saved_eq : saved = store.afterBatch message := by
    rw [← readReceipt_snd, read_eq]
  subst saved_eq
  rw [read_eq] at read
  subst read
  simp only [onReceipt, loaded, read_eq, writes.autoAccept, if_true, confirmed, reloaded]
  rfl

/-- Records that were written back can be read when every record keeps its units. -/
theorem exists_listValueRecords (listed : store.listValueRecords = .ok wallet.records)
    {recordRows : List (LocalValueRecord H)}
    (compacted : (confirmedRecords wallet receipt context).mapM (fun record =>
      record.mapUnits (ConfirmedBundleUnit.compact after.getReceiptProofBatch)) = .ok recordRows)
    (mem_records : ∀ row, row ∈ after.tables.records ↔ row ∈ recordRows)
    (kept : ∀ row ∈ store.tables.records, ∀ record, store.readRecord row = .ok record →
      ∃ newRow ∈ after.tables.records, ∃ newRecord, after.readRecord newRow = .ok newRecord ∧
        newRecord.recordId = record.recordId ∧ record.units <:+ newRecord.units) :
    ∃ records, after.listValueRecords = .ok records := by
  refine exists_mapM_of_forall_mem fun row member => ?_
  obtain ⟨confirmed, confirmed_mem, row_compacted⟩ :=
    exists_mem_of_mapM_result compacted ((mem_records row).mp member)
  obtain ⟨record, record_mem, rfl⟩ := List.mem_map.mp confirmed_mem
  obtain ⟨oldRow, old_mem, read⟩ := exists_mem_of_mapM_result listed record_mem
  obtain ⟨newRow, new_mem, newRecord, new_read, same_id, _⟩ := kept oldRow old_mem record read
  obtain rfl : newRow = row := by
    apply eq_of_recordId_eq after.tables.recordIds_nodup new_mem member
    rw [← LocalValueRecord.recordId_of_mapUnits new_read, same_id,
      LocalValueRecord.recordId_of_mapUnits row_compacted, LocalWalletDB.recordId_confirmRecord]
  exact ⟨newRecord, new_read⟩

/-- Without a written receipt the saved batch must agree with every row. -/
theorem keeps_iff_of_not_writes (loaded : store.reloadState = .ok wallet)
    (not_writes : ∀ receipt context,
      ¬ store.Writes wallet autoAcceptReceipts message found receipt context) :
    let outcome := store.onReceipt autoAcceptReceipts message found
    (store.ProofsKept outcome.2 ∧ ((∃ error, outcome.1 = .rejected error) →
      outcome.2.listValueRecords = store.listValueRecords)) ↔
      store.MessageKeeps wallet autoAcceptReceipts message found := by
  intro outcome
  have same : (store.afterBatch message).SameRows outcome.2 :=
    (onReceipt_of_not_writes loaded not_writes).1
  have records_eq : outcome.2.tables.records = store.tables.records := by
    rw [same.records, tables_afterBatch]
  have not_rewrites : ¬ store.Rewrites wallet autoAcceptReceipts message found := by
    rintro ⟨receipt, context, writes, _⟩
    exact not_writes receipt context writes
  have receipts_iff := receipts_kept_iff_of_sameRows same
  have units_iff := confirmedUnits_kept_iff_of_sameRows same
  have records_iff :=
    recordUnits_iff_of_unchanged (reloadState_eq_ok loaded) same.lookup records_eq
  constructor
  · rintro ⟨kept, _⟩
    exact
      { receipts := fun seq row row_found _ => receipts_iff.mp kept.receipts seq row row_found
        writtenReceipt := fun receipt context _ writes =>
          absurd writes (not_writes receipt context)
        confirmedUnits := fun ref row row_found _ =>
          units_iff.mp kept.confirmedUnits ref row row_found
        writtenUnit := fun receipt context _ writes => absurd writes (not_writes receipt context)
        recordUnits := fun row member unit unit_mem _ =>
          records_iff.mp kept.recordUnits row member unit unit_mem }
  · intro keeps
    have agrees : ∀ row ∈ store.tables.records, ∀ unit ∈ row.units,
        store.Agrees message unit.receipt := fun row member unit unit_mem =>
      keeps.recordUnits row member unit unit_mem fun rewrites => absurd rewrites not_rewrites
    refine ⟨⟨receipts_iff.mpr ?_, units_iff.mpr ?_, records_iff.mpr agrees⟩, fun _ => ?_⟩
    · intro seq row row_found
      exact keeps.receipts seq row row_found fun receipt context writes =>
        absurd writes (not_writes receipt context)
    · intro ref row row_found
      exact keeps.confirmedUnits ref row row_found fun receipt context writes =>
        absurd writes (not_writes receipt context)
    · exact listValueRecords_of_unchanged loaded same.lookup records_eq agrees

/-- With a written receipt the rows that it replaces must have been read as what it writes. -/
theorem Writes.keeps_iff (loaded : store.reloadState = .ok wallet)
    (writes : store.Writes wallet autoAcceptReceipts message found receipt context) :
    let outcome := store.onReceipt autoAcceptReceipts message found
    (store.ProofsKept outcome.2 ∧ ((∃ error, outcome.1 = .rejected error) →
      outcome.2.listValueRecords = store.listValueRecords)) ↔
      store.MessageKeeps wallet autoAcceptReceipts message found := by
  intro outcome
  obtain ⟨proof, proved⟩ := exists_single_of_readReceipt writes.read
  obtain ⟨rows, wrote, unchanged, rewritten⟩ := writes.exists_wrote loaded
  have same : (store.afterBatch message).SameRows
      ((store.afterBatch message).observeHeader receipt.headerLite found) :=
    sameRows_observeHeader _ _ _
  have lookup : outcome.2.getReceiptProofBatch =
      (store.afterBatch message).getReceiptProofBatch := wrote.lookup.trans same.lookup
  have rewrites_iff : store.Rewrites wallet autoAcceptReceipts message found ↔
      (store.afterBatch message).Rewritable wallet receipt context := by
    constructor
    · rintro ⟨other, otherContext, writes_other, rewritable⟩
      obtain ⟨rfl, rfl⟩ := writes.unique writes_other
      exact rewritable
    · exact fun rewritable => ⟨receipt, context, writes, rewritable⟩
  have receipts_iff := receipts_kept_iff_of_wrote same wrote proved
  have units_iff := confirmedUnits_kept_iff_of_wrote same wrote proved
  have records_iff : (∀ row ∈ store.tables.records, ∀ record, store.readRecord row = .ok record →
      ∃ newRow ∈ outcome.2.tables.records, ∃ newRecord,
        outcome.2.readRecord newRow = .ok newRecord ∧
          newRecord.recordId = record.recordId ∧ record.units <:+ newRecord.units) ↔
      ∀ row ∈ store.tables.records, ∀ unit ∈ row.units,
        (store.Rewrites wallet autoAcceptReceipts message found →
          unit.receipt.materialize store.getReceiptProofBatch = .ok unit.receipt) →
          store.Agrees message unit.receipt := by
    rw [rewrites_iff]
    by_cases rewritable : (store.afterBatch message).Rewritable wallet receipt context
    · obtain ⟨recordRows, compacted, mem_records⟩ := rewritten rewritable
      simp only [rewritable, true_imp_iff]
      exact recordUnits_iff_of_rewritten (reloadState_eq_ok loaded) lookup compacted mem_records
        proved
    · simp only [rewritable, false_imp_iff, true_imp_iff]
      exact recordUnits_iff_of_unchanged (reloadState_eq_ok loaded) lookup (unchanged rewritable)
  constructor
  · rintro ⟨kept, _⟩
    exact
      { receipts := fun seq row row_found others =>
          (receipts_iff.mp kept.receipts).1 seq row row_found (others receipt context writes)
        writtenReceipt := by
          intro other otherContext old writes_other read
          obtain ⟨rfl, rfl⟩ := writes.unique writes_other
          exact (receipts_iff.mp kept.receipts).2 old read
        confirmedUnits := fun ref row row_found others =>
          (units_iff.mp kept.confirmedUnits).1 ref row row_found (others receipt context writes)
        writtenUnit := by
          intro other otherContext old writes_other read
          obtain ⟨rfl, rfl⟩ := writes.unique writes_other
          exact (units_iff.mp kept.confirmedUnits).2 old read
        recordUnits := records_iff.mp kept.recordUnits }
  · intro keeps
    have kept : store.ProofsKept outcome.2 :=
      { receipts := receipts_iff.mpr ⟨fun seq row row_found differs =>
            keeps.receipts seq row row_found fun other otherContext writes_other => by
              obtain ⟨rfl, rfl⟩ := writes.unique writes_other
              exact differs,
          fun old read => keeps.writtenReceipt receipt context old writes read⟩
        confirmedUnits := units_iff.mpr ⟨fun ref row row_found differs =>
            keeps.confirmedUnits ref row row_found fun other otherContext writes_other => by
              obtain ⟨rfl, rfl⟩ := writes.unique writes_other
              exact differs,
          fun old read => keeps.writtenUnit receipt context old writes read⟩
        recordUnits := records_iff.mpr keeps.recordUnits }
    refine ⟨kept, ?_⟩
    rintro ⟨error, rejected⟩
    by_cases rewritable : (store.afterBatch message).Rewritable wallet receipt context
    · -- The records are read back, so the message is applied.
      have readable : ∃ records, outcome.2.listValueRecords = .ok records := by
        obtain ⟨recordRows, compacted, mem_records⟩ := rewritten rewritable
        exact exists_listValueRecords (reloadState_eq_ok loaded) compacted mem_records
          kept.recordUnits
      have applied := writes.applied_of_rewritten loaded rewritable readable
      cases applied.symm.trans rejected
    · apply listValueRecords_of_unchanged loaded lookup (unchanged rewritable)
      intro row member unit unit_mem
      exact keeps.recordUnits row member unit unit_mem fun rewrites =>
        absurd (rewrites_iff.mp rewrites) rewritable

end Main

section Examples

open SymbolicDigest

/-- The batch of a block that gives default siblings and lists some keys. -/
def defaultBatch (keys : List Bytes) : ReceiptProofBatch SymbolicDigest :=
  ⟨⟨1, filled 1⟩, filled 2, ⟨256, keys, []⟩⟩

/-- A receipt of Alice's that takes its proof from the batch of its block. -/
def batchedReceipt : Receipt SymbolicDigest where
  headerLite := ⟨1, filled 1, filled 2⟩
  seq := 1
  prevRef := none
  claimSetHash := none
  proof := .batchRef ⟨⟨1, filled 1⟩, computeAddrKey SymbolicDigest alice⟩
  seq_pos := Nat.one_pos

/-- Alice's database with the receipt and its batch. -/
def aliceStore : StoredWallet SymbolicDigest :=
  StoredWallet.saveReceiptProofBatch
    { tables := { LocalWalletDB.new alice (filled 0) with
        receipts := OrderedDict.set ∅ 1 (receiptRef batchedReceipt (filled 3), batchedReceipt) }
      proofBatches := ∅
      batches_keyed := List.forall_mem_nil _ }
    (defaultBatch [(computeAddrKey SymbolicDigest alice).bytes])

/-- The receipt again, with a batch of the same name that lists no key. -/
def emptiedBatch : ReceiptMessage SymbolicDigest := ⟨some batchedReceipt, some (defaultBatch [])⟩

theorem exists_materialize_batchedReceipt (keys : List Bytes)
    {lookup : BatchLookup SymbolicDigest}
    (found : lookup ⟨1, filled 1⟩ = some (defaultBatch keys)) :
    ∃ siblings, batchedReceipt.materialize lookup = .ok (batchedReceipt.withProof
      (.single ⟨siblings, (computeAddrKey SymbolicDigest alice).bytes ∈ keys⟩)) := by
  have length_eq : (computeAddrKey SymbolicDigest alice).bytes.length * 8 = 256 := by
    rw [(computeAddrKey SymbolicDigest alice).length_eq]
  obtain ⟨siblings, materialized⟩ : ∃ siblings, materializeProof (defaultBatch keys).multiProof
      (computeAddrKey SymbolicDigest alice).bytes = .ok ⟨siblings, _ ∈ keys⟩ :=
    exists_materializeProof_eq_ok length_eq
  exact ⟨siblings, Receipt.materialize_of_batchRef rfl found rfl materialized⟩

end Examples

end StoredWallet

end EZChain
