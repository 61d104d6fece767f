import EZChain.Wallet.StoredProofs
import EZChain.Transfer.Package

/-!
# Receipt messages

An account host stores the proof batch of a receipt message before it looks at the receipt any
further, over a stored batch of the same id.  Rows that name this id are then read with the new
batch, whether or not the receipt is applied.
-/

namespace EZChain

open Checks

/-! ## Handling a receipt -/

/-- The payload of a receipt message. -/
structure ReceiptMessage (H : Type) where
  receipt : Option (Receipt H)
  proofBatch : Option (ReceiptProofBatch H)

/-- The outcome of a receipt message. -/
inductive ReceiptResponse where
  | rejected (error : String)
  | seenNotApplied
  | applied
  deriving DecidableEq

namespace StoredWallet

variable {H : Type} [Crypto H] [DecidableEq H]

/-- `_materialize_receipt_from_batch`. -/
def materializeReceiptFromBatch (store : StoredWallet H) (receipt : Receipt H)
    (proofBatch : ReceiptProofBatch H) : Except String (Receipt H) × StoredWallet H :=
  match receipt.proofBatchRef with
  | none => (.error "missing proof batch ref", store)
  | some proofRef =>
      if proofRef.batchId ≠ proofBatch.batchId then (.error "proof batch ref mismatch", store)
      else if proofBatch.stateRoot ≠ receipt.headerLite.stateRoot then
        (.error "proof batch state_root mismatch", store)
      else
        ((materializeProof proofBatch.multiProof proofRef.key.bytes).map fun proof =>
          receipt.withProof (.single proof), store.saveReceiptProofBatch proofBatch)

/-- The receipt of a message, with its proof. -/
def readReceipt (store : StoredWallet H) (message : ReceiptMessage H) :
    Except String (Receipt H) × StoredWallet H :=
  match message.receipt with
  | none => (.error "missing_receipt", store)
  | some receipt =>
      if receipt.accountStateProof.isSome then (.ok receipt, store)
      else
        match message.proofBatch with
        | none => (.error "missing_receipt_proof_batch", store)
        | some proofBatch =>
            let (materialized, saved) := store.materializeReceiptFromBatch receipt proofBatch
            (materialized.mapError fun error => "invalid_receipt_proof_batch:" ++ error, saved)

/-- Observe the block that was found for an unknown header, if it is the header's block. -/
def observeHeader (store : StoredWallet H) (header : HeaderLite H) (found : Option (BlockV2 H)) :
    StoredWallet H :=
  if store.tables.knowsCanonicalHeader header then store
  else
    match found with
    | none => store
    | some block =>
        if block.blockHash = header.blockHash ∧ block.header.stateRoot = header.stateRoot then
          store.observeCanonicalBlock block
        else store

/-- `_on_receipt` up to the delivery of the packages, which writes nothing; `found` is the block
that the host has or fetches for the height of the receipt. -/
def onReceipt (store : StoredWallet H) (autoAcceptReceipts : Bool) (message : ReceiptMessage H)
    (found : Option (BlockV2 H)) : ReceiptResponse × StoredWallet H :=
  match store.reloadState with
  | .error error => (.rejected error, store)
  | .ok wallet =>
      match store.readReceipt message with
      | (.error error, store) => (.rejected error, store)
      | (.ok receipt, store) =>
          if autoAcceptReceipts then
            match (store.observeHeader receipt.headerLite found).onReceiptConfirmed wallet
              receipt with
            | (.error error, store) => (.rejected error, store)
            | (.ok _, store) => (.applied, store)
          else (.seenNotApplied, store)

/-! ## The saved batch -/

end StoredWallet

/-- The batch that a message leaves in the database: the receipt lacks its proof and names this
batch, which is about the state root of the receipt. -/
def ReceiptMessage.savedBatch {H : Type} [DecidableEq H] (message : ReceiptMessage H) :
    Option (ReceiptProofBatch H) :=
  match message.receipt, message.proofBatch with
  | some receipt, some proofBatch =>
      if receipt.proofBatchRef.map ReceiptProofRef.batchId = some proofBatch.batchId ∧
          proofBatch.stateRoot = receipt.headerLite.stateRoot then
        some proofBatch
      else none
  | _, _ => none

namespace StoredWallet

variable {H : Type} [Crypto H] [DecidableEq H]

/-- The database with the batch of a message. -/
def afterBatch (store : StoredWallet H) (message : ReceiptMessage H) : StoredWallet H :=
  message.savedBatch.elim store store.saveReceiptProofBatch

/-- The saved batch turns a stored row that names it into what the stored batches turn it into. -/
def Agrees (store : StoredWallet H) (message : ReceiptMessage H) (row : Receipt H) : Prop :=
  ∀ proofBatch ref full, message.savedBatch = some proofBatch → row.proof = .batchRef ref →
    ref.batchId = proofBatch.batchId → row.materialize store.getReceiptProofBatch = .ok full →
      row.materialize (fun _ => some proofBatch) = .ok full

section Batch

variable {store : StoredWallet H} {message : ReceiptMessage H}

omit [Crypto H] in
theorem tables_afterBatch : (store.afterBatch message).tables = store.tables := by
  rw [afterBatch]
  cases message.savedBatch <;> rfl

/-- Reading the receipt leaves the batch of the message behind, and nothing else. -/
theorem readReceipt_snd : (store.readReceipt message).2 = store.afterBatch message := by
  cases receipt_eq : message.receipt with
  | none =>
      simp only [readReceipt, afterBatch, ReceiptMessage.savedBatch, receipt_eq, Option.elim_none]
  | some receipt =>
      cases proof_eq : receipt.proof with
      | single proof =>
          have proved : receipt.accountStateProof = some proof := by
            simp only [Receipt.accountStateProof, proof_eq]
          have no_ref : receipt.proofBatchRef = none := by
            simp only [Receipt.proofBatchRef, proof_eq]
          cases batch_eq : message.proofBatch <;>
            simp [readReceipt, afterBatch, ReceiptMessage.savedBatch, receipt_eq, proved, no_ref,
              batch_eq]
      | batchRef ref =>
          have unproved : receipt.accountStateProof = none := by
            simp only [Receipt.accountStateProof, proof_eq]
          have ref_eq : receipt.proofBatchRef = some ref := by
            simp only [Receipt.proofBatchRef, proof_eq]
          cases batch_eq : message.proofBatch with
          | none =>
              simp [readReceipt, afterBatch, ReceiptMessage.savedBatch, receipt_eq, unproved,
                batch_eq]
          | some proofBatch =>
              simp only [readReceipt, afterBatch, ReceiptMessage.savedBatch, receipt_eq, unproved,
                ref_eq, batch_eq, materializeReceiptFromBatch]
              by_cases ids : ref.batchId = proofBatch.batchId
              · by_cases roots : proofBatch.stateRoot = receipt.headerLite.stateRoot
                · simp [ids, roots]
                · simp [ids, roots]
              · simp [ids]

/-- A receipt that was read has its proof. -/
theorem exists_single_of_readReceipt {receipt : Receipt H}
    (read : (store.readReceipt message).1 = .ok receipt) :
    ∃ proof, receipt.proof = .single proof := by
  cases receipt_eq : message.receipt with
  | none =>
      simp only [readReceipt, receipt_eq, reduceCtorEq] at read
  | some sent =>
      simp only [readReceipt, receipt_eq] at read
      split_ifs at read with proved
      · obtain rfl := Except.ok.inj read
        cases proof_eq : sent.proof with
        | single proof => exact ⟨proof, rfl⟩
        | batchRef ref => simp [Receipt.accountStateProof, proof_eq] at proved
      · cases batch_eq : message.proofBatch with
        | none => simp only [batch_eq, reduceCtorEq] at read
        | some proofBatch =>
            simp only [batch_eq, mapError_eq_ok, materializeReceiptFromBatch] at read
            cases ref_eq : sent.proofBatchRef with
            | none => simp only [ref_eq, reduceCtorEq] at read
            | some proofRef =>
                simp only [ref_eq] at read
                split_ifs at read
                cases materialized : materializeProof proofBatch.multiProof proofRef.key.bytes with
                | error error => simp only [materialized, Except.map, reduceCtorEq] at read
                | ok proof =>
                    simp only [materialized, Except.map, Except.ok.injEq] at read
                    exact ⟨proof, by rw [← read, Receipt.withProof]⟩

omit [Crypto H] in
theorem getReceiptProofBatch_afterBatch_of_ne {batchId : BatchId H}
    (differs : ∀ proofBatch, message.savedBatch = some proofBatch →
      batchId ≠ proofBatch.batchId) :
    (store.afterBatch message).getReceiptProofBatch batchId =
      store.getReceiptProofBatch batchId := by
  rw [afterBatch]
  cases saved : message.savedBatch with
  | none => rfl
  | some proofBatch => exact OrderedDict.get?_set_of_ne _ (differs proofBatch saved).symm _

theorem agrees_iff {row : Receipt H} :
    store.Agrees message row ↔
      ∀ full, row.materialize store.getReceiptProofBatch = .ok full →
        row.materialize (store.afterBatch message).getReceiptProofBatch = .ok full := by
  have congr : ∀ {ref : ReceiptProofRef H} {left right : BatchLookup H},
      row.proof = .batchRef ref → left ref.batchId = right ref.batchId →
        row.materialize left = row.materialize right := by
    intro ref left right ref_eq same
    simp only [Receipt.materialize, ref_eq, same]
  cases proof_eq : row.proof with
  | single proof =>
      refine iff_of_true ?_ ?_
      · intro proofBatch ref full _ ref_eq
        cases proof_eq.symm.trans ref_eq
      · intro full materialized
        rwa [Receipt.materialize_of_single proof_eq] at materialized ⊢
  | batchRef ref =>
      cases saved : message.savedBatch with
      | none =>
          refine iff_of_true (fun proofBatch _ _ some_eq => ?_) (fun full materialized => ?_)
          · cases saved.symm.trans some_eq
          · rwa [afterBatch, saved]
      | some proofBatch =>
          by_cases named : ref.batchId = proofBatch.batchId
          · have found : (store.afterBatch message).getReceiptProofBatch ref.batchId =
                some proofBatch := by
              rw [afterBatch, saved, named]
              exact OrderedDict.get?_set_self _ _ _
            have read_with : row.materialize (store.afterBatch message).getReceiptProofBatch =
                row.materialize (fun _ => some proofBatch) := congr proof_eq found
            rw [read_with]
            constructor
            · intro agrees full materialized
              exact agrees proofBatch ref full saved proof_eq named materialized
            · intro same other otherRef full other_saved other_ref _ materialized
              obtain rfl := Option.some.inj (saved.symm.trans other_saved)
              exact same full materialized
          · have same : (store.afterBatch message).getReceiptProofBatch ref.batchId =
                store.getReceiptProofBatch ref.batchId := by
              refine getReceiptProofBatch_afterBatch_of_ne fun other other_saved => ?_
              obtain rfl := Option.some.inj (saved.symm.trans other_saved)
              exact named
            rw [congr proof_eq same]
            refine iff_of_true ?_ (fun full materialized => materialized)
            intro other otherRef full other_saved other_ref other_named
            obtain rfl := Option.some.inj (saved.symm.trans other_saved)
            cases proof_eq.symm.trans other_ref
            exact absurd other_named named

end Batch

/-! ## What an applied receipt writes -/

/-- `on_receipt_confirmed` gets to write the receipt of a pending bundle. -/
structure Writable (store : StoredWallet H) (wallet : LocalWalletDB H) (receipt : Receipt H)
    (context : PendingBundleContext H) : Prop where
  checked : (store.opened wallet).ReceiptChecked receipt context
  previous : ∃ unit, store.readPreviousUnit receipt = .ok unit
  compacts : ∃ row, receipt.compact store.tables.address
    (store.getReceiptProofBatch receipt.headerLite.batchId) = .ok row
  unused : store.tables.RefUnused receipt context

/-- The records of the wallet once they know the unit of a receipt. -/
def confirmedRecords (wallet : LocalWalletDB H) (receipt : Receipt H)
    (context : PendingBundleContext H) : List (LocalValueRecord H) :=
  wallet.records.map (LocalWalletDB.confirmRecord (LocalWalletDB.confirmedUnit receipt context)
    context.pendingRecordIds context.outgoingRecordIds)

/-- `on_receipt_confirmed` gets to write the records, too. -/
def Rewritable (store : StoredWallet H) (wallet : LocalWalletDB H) (receipt : Receipt H)
    (context : PendingBundleContext H) : Prop :=
  ∃ rows, (confirmedRecords wallet receipt context).mapM (fun record =>
    record.mapUnits (ConfirmedBundleUnit.compact store.getReceiptProofBatch)) = .ok rows

section Confirm

variable {store : StoredWallet H} {wallet : LocalWalletDB H} {receipt : Receipt H}
  {context : PendingBundleContext H}

theorem planReceipt_eq_ok {unit : ConfirmedBundleUnit H} {transactions : List (Transaction H)} :
    store.planReceipt wallet receipt = .ok (unit, transactions) ↔
      (∃ unit, store.readPreviousUnit receipt = .ok unit) ∧
        ∃ context, (store.opened wallet).ReceiptChecked receipt context ∧
          unit = LocalWalletDB.confirmedUnit receipt context ∧
          transactions = (store.opened wallet).receiptTransactions receipt context := by
  simp only [planReceipt, bind_eq_ok, require_eq_ok, exists_const, demand_eq_ok,
    LocalWalletDB.onReceiptConfirmed_eq_ok]
  constructor
  · rintro ⟨_, _, _, previous, previous_read, planned⟩
    exact ⟨⟨previous, previous_read⟩, planned⟩
  · rintro ⟨⟨previous, previous_read⟩, context, checked, rfl, rfl⟩
    exact ⟨context, checked.pending, checked.known, previous, previous_read, context, checked, rfl,
      rfl⟩

omit [DecidableEq H] in
theorem exists_materializeProof {multiProof : SparseMerkleMultiProof H} {key : Bytes32}
    (other : Bytes32) (materialized : ∃ proof, materializeProof multiProof key.bytes = .ok proof) :
    ∃ proof, materializeProof multiProof other.bytes = .ok proof := by
  simp only [materializeProof, bind_eq_ok, require_eq_ok, exists_const, pure_eq_ok,
    exists_and_left, exists_eq', and_true] at materialized ⊢
  rwa [other.length_eq, ← key.length_eq]

/-- A receipt that compacts for one address does so for every address. -/
theorem exists_compact {senderAddr : Address} {proofBatch : Option (ReceiptProofBatch H)}
    (other : Address) (compacts : ∃ row, receipt.compact senderAddr proofBatch = .ok row) :
    ∃ row, receipt.compact other proofBatch = .ok row := by
  obtain ⟨row, compacted⟩ := compacts
  unfold Receipt.compact at compacted ⊢
  split at compacted
  · exact ⟨_, rfl⟩
  · exact ⟨_, rfl⟩
  · next proof batch _ _ =>
      split_ifs at compacted with roots
      · rw [if_pos roots]
        exact ⟨_, rfl⟩
      · rw [if_neg roots]
        simp only [bind_eq_ok] at compacted
        obtain ⟨materialized, materialized_eq, _⟩ := compacted
        obtain ⟨other_proof, other_eq⟩ :=
          exists_materializeProof (computeAddrKey H other) ⟨materialized, materialized_eq⟩
        simp only [other_eq]
        exact ⟨_, rfl⟩

/-- The rows of an applied receipt. -/
structure ReceiptRows (store : StoredWallet H) (receipt : Receipt H)
    (context : PendingBundleContext H) where
  receiptRow : Receipt H
  unitRow : ConfirmedBundleUnit H
  receipt_compacted : receipt.compact store.tables.address
    (store.getReceiptProofBatch receipt.headerLite.batchId) = .ok receiptRow
  unit_compacted : (LocalWalletDB.confirmedUnit receipt context).compact
    store.getReceiptProofBatch = .ok unitRow

/-- The database once the receipt is written. -/
def withReceiptRow (store : StoredWallet H) (receipt : Receipt H) (context : PendingBundleContext H)
    (row : Receipt H) : StoredWallet H :=
  { store with
    tables := { store.tables with
      receipts := store.tables.receipts.set receipt.seq
        (receiptRef receipt context.bundleHash, row) } }

/-- The database once the receipt and the unit are written and the bundle is no longer pending. -/
def withReceipt (store : StoredWallet H) {receipt : Receipt H} {context : PendingBundleContext H}
    (rows : ReceiptRows store receipt context) : StoredWallet H :=
  { store with
    tables := { store.tables with
      receipts := store.tables.receipts.set receipt.seq
        (receiptRef receipt context.bundleHash, rows.receiptRow)
      confirmedUnits := store.tables.confirmedUnits.set
        (confirmedRef (LocalWalletDB.confirmedUnit receipt context)) rows.unitRow
      pendingBundles := store.tables.pendingBundles.erase receipt.seq } }

theorem Writable.exists_rows (writable : store.Writable wallet receipt context) :
    Nonempty (ReceiptRows store receipt context) := by
  obtain ⟨row, compacted⟩ := writable.compacts
  obtain ⟨unitReceipt, unit_compacted⟩ :=
    exists_compact context.sidecar.senderAddr writable.compacts
  refine ⟨⟨row, { LocalWalletDB.confirmedUnit receipt context with receipt := unitReceipt },
    compacted, ?_⟩⟩
  simp only [ConfirmedBundleUnit.compact, bind_eq_ok, pure_eq_ok]
  exact ⟨unitReceipt, unit_compacted, rfl⟩

theorem onReceiptConfirmed_of_not_writable
    (not_writable : ∀ context, ¬ store.Writable wallet receipt context) :
    ∃ message, store.onReceiptConfirmed wallet receipt = (.error message, store) := by
  cases planned : store.planReceipt wallet receipt with
  | error message => exact ⟨message, by simp only [onReceiptConfirmed, planned]⟩
  | ok plan =>
      obtain ⟨unit, transactions⟩ := plan
      obtain ⟨previous, context, checked, rfl, rfl⟩ := planReceipt_eq_ok.mp planned
      have failed : ∃ message, store.commit (.saveReceipt receipt context.bundleHash) =
          .error message := by
        cases committed : store.commit (.saveReceipt receipt context.bundleHash) with
        | error message => exact ⟨message, rfl⟩
        | ok next =>
            simp only [commit, compactTransaction, bind_eq_ok, pure_eq_ok] at committed
            obtain ⟨_, ⟨row, compacted, rfl⟩, tables, saved, _⟩ := committed
            obtain ⟨proof, rfl⟩ := Receipt.exists_withProof_of_compact compacted
            refine absurd ⟨checked, previous, ⟨_, compacted⟩, ?_⟩ (not_writable context)
            by_contra used
            have raised : store.tables.commit
                (.saveReceipt (receipt.withProof proof) context.bundleHash) = .error _ :=
              LocalWalletDB.commit_saveReceipt_of_used used
            rw [raised] at saved
            cases saved
      obtain ⟨message, failed⟩ := failed
      refine ⟨message, ?_⟩
      simp only [onReceiptConfirmed, planned, LocalWalletDB.receiptTransactions, commitAll, failed]

/-- Once the receipt is writable, only the records may fail to be written. -/
theorem Writable.commitAll_receipt (writable : store.Writable wallet receipt context)
    (rows : ReceiptRows store receipt context) :
    store.commitAll ((store.opened wallet).receiptTransactions receipt context) =
      (store.withReceipt rows).commitAll
        [.replaceValueRecords (confirmedRecords wallet receipt context)] := by
  obtain ⟨receiptProof, receiptRow_eq⟩ :=
    Receipt.exists_withProof_of_compact rows.receipt_compacted
  have receipt_saved : store.commit (.saveReceipt receipt context.bundleHash) =
      .ok (store.withReceiptRow receipt context rows.receiptRow) := by
    simp only [commit, compactTransaction, bind_eq_ok, pure_eq_ok]
    refine ⟨_, ⟨_, rows.receipt_compacted, rfl⟩, _, ?_, rfl⟩
    have unused : store.tables.RefUnused rows.receiptRow context := by
      rw [receiptRow_eq]
      exact writable.unused
    rw [LocalWalletDB.commit_saveReceipt unused, receiptRow_eq]
    rfl
  have unit_saved : (store.withReceiptRow receipt context rows.receiptRow).commit
      (.saveConfirmedUnit (LocalWalletDB.confirmedUnit receipt context)) =
        .ok { store.withReceiptRow receipt context rows.receiptRow with
          tables := { (store.withReceiptRow receipt context rows.receiptRow).tables with
            confirmedUnits := store.tables.confirmedUnits.set
              (confirmedRef (LocalWalletDB.confirmedUnit receipt context)) rows.unitRow } } := by
    have unit_compacted := rows.unit_compacted
    simp only [ConfirmedBundleUnit.compact, bind_eq_ok, pure_eq_ok] at unit_compacted
    obtain ⟨unitReceipt, compacted, unitRow_eq⟩ := unit_compacted
    obtain ⟨unitProof, rfl⟩ := Receipt.exists_withProof_of_compact compacted
    simp only [commit, compactTransaction, bind_eq_ok, pure_eq_ok]
    refine ⟨_, ⟨_, rows.unit_compacted, rfl⟩, _, rfl, ?_⟩
    rw [← unitRow_eq]
    rfl
  rw [LocalWalletDB.receiptTransactions, commitAll_cons receipt_saved, commitAll_cons unit_saved,
    commitAll_cons rfl]
  rfl

theorem Writable.onReceiptConfirmed_of_not_rewritable
    (writable : store.Writable wallet receipt context)
    (rows : ReceiptRows store receipt context)
    (not_rewritable : ¬ store.Rewritable wallet receipt context) :
    ∃ message, store.onReceiptConfirmed wallet receipt =
      (.error message, store.withReceipt rows) := by
  have planned := planReceipt_eq_ok.mpr ⟨writable.previous, context, writable.checked, rfl, rfl⟩
  have failed : ∃ message, (store.withReceipt rows).commit
      (.replaceValueRecords (confirmedRecords wallet receipt context)) = .error message := by
    cases committed : (store.withReceipt rows).commit
        (.replaceValueRecords (confirmedRecords wallet receipt context)) with
    | error message => exact ⟨message, rfl⟩
    | ok next =>
        simp only [commit, compactTransaction, bind_eq_ok, pure_eq_ok] at committed
        obtain ⟨_, ⟨recordRows, compacted, _⟩, _⟩ := committed
        exact absurd ⟨recordRows, compacted⟩ not_rewritable
  obtain ⟨message, failed⟩ := failed
  refine ⟨message, ?_⟩
  simp only [onReceiptConfirmed, planned, writable.commitAll_receipt rows, commitAll, failed]

/-- The record rows of an applied receipt have the ids of the wallet's records. -/
theorem nodup_of_confirmedRecords {recordRows : List (LocalValueRecord H)}
    (compacted : (confirmedRecords wallet receipt context).mapM (fun record =>
      record.mapUnits (ConfirmedBundleUnit.compact store.getReceiptProofBatch)) =
        .ok recordRows) :
    (recordRows.map LocalValueRecord.recordId).Nodup := by
  have same_ids : (confirmedRecords wallet receipt context).map LocalValueRecord.recordId =
      recordRows.map LocalValueRecord.recordId := by
    rw [← List.forall₂_eq_eq_eq, List.forall₂_map_left_iff, List.forall₂_map_right_iff]
    apply (mapM_eq_ok.mp compacted).imp
    intro record row mapped
    exact (LocalValueRecord.recordId_of_mapUnits mapped).symm
  rw [← same_ids]
  exact wallet.nodup_map_recordId (LocalWalletDB.recordId_confirmRecord _ _ _)

/-- The database once the records are written, too. -/
def withRecordRows (store : StoredWallet H) (recordRows : List (LocalValueRecord H))
    (nodup : (recordRows.map LocalValueRecord.recordId).Nodup) : StoredWallet H :=
  { store with tables := store.tables.withRecords recordRows nodup }

theorem Writable.onReceiptConfirmed_of_rewritable
    (writable : store.Writable wallet receipt context)
    (rows : ReceiptRows store receipt context) {recordRows : List (LocalValueRecord H)}
    (compacted : (confirmedRecords wallet receipt context).mapM (fun record =>
      record.mapUnits (ConfirmedBundleUnit.compact store.getReceiptProofBatch)) =
        .ok recordRows) :
    let after := (store.withReceipt rows).withRecordRows recordRows
      (nodup_of_confirmedRecords compacted)
    store.onReceiptConfirmed wallet receipt =
      (after.reloadState.map fun _ => LocalWalletDB.confirmedUnit receipt context, after) := by
  intro after
  have planned := planReceipt_eq_ok.mpr ⟨writable.previous, context, writable.checked, rfl, rfl⟩
  have committed : (store.withReceipt rows).commit
      (.replaceValueRecords (confirmedRecords wallet receipt context)) = .ok after := by
    simp only [commit, compactTransaction, bind_eq_ok, pure_eq_ok]
    exact ⟨_, ⟨recordRows, compacted, rfl⟩, _,
      LocalWalletDB.commit_replaceValueRecords (nodup_of_confirmedRecords compacted), rfl⟩
  simp only [onReceiptConfirmed, planned, writable.commitAll_receipt rows, commitAll, committed]

end Confirm

end StoredWallet

end EZChain
