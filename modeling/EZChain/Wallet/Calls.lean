import EZChain.Wallet.Canonical
import EZChain.Wallet.Split

/-!
# Wallet calls

What every call of a wallet does to its database when it succeeds.  A call that raises before its
first transaction changes nothing, and no transaction fails when the record ids are fresh and the
receipt references are.
-/

namespace EZChain

open Checks Cover

/-- A call of the wallet. -/
inductive WalletCall (H : Type) where
  | addGenesisValue (value : ValueRange) (recordId : String)
  | receiveTransfer (package : TransferPackage H) (context : ValidationContext H)
      (recordId : String)
  | buildBundle (call : BundleCall)
  | onReceiptConfirmed (receipt : Receipt H)
  | markReceiptMissing (seq : ℕ)
  | rollbackPendingBundle (seq : ℕ)
  | observeCanonicalHeader (header : HeaderLite H)

namespace LocalWalletDB

variable {H : Type}

/-! ## Transactions -/

@[simp]
theorem mem_records_withRecords {db : LocalWalletDB H} {records : List (LocalValueRecord H)}
    {nodup : (records.map LocalValueRecord.recordId).Nodup} {record : LocalValueRecord H} :
    record ∈ (db.withRecords records nodup).records ↔ record ∈ records :=
  (List.perm_insertionSort _ records).mem_iff

theorem perm_records_withRecords (db : LocalWalletDB H) {records : List (LocalValueRecord H)}
    (nodup : (records.map LocalValueRecord.recordId).Nodup) :
    (db.withRecords records nodup).records.Perm records :=
  List.perm_insertionSort _ records

theorem nodup_map_recordId (db : LocalWalletDB H)
    {change : LocalValueRecord H → LocalValueRecord H}
    (recordId_eq : ∀ record, (change record).recordId = record.recordId) :
    ((db.records.map change).map LocalValueRecord.recordId).Nodup := by
  simpa only [List.map_map, Function.comp_def, recordId_eq] using db.recordIds_nodup

/-- Change the records without changing their ids. -/
def mapRecords (db : LocalWalletDB H) (change : LocalValueRecord H → LocalValueRecord H)
    (recordId_eq : ∀ record, (change record).recordId = record.recordId) : LocalWalletDB H :=
  db.withRecords (db.records.map change) (db.nodup_map_recordId recordId_eq)

section Commit

variable [Crypto H] [DecidableEq H] {db next : LocalWalletDB H} {transaction : Transaction H}
  {rest : List (Transaction H)}

theorem commitAll_cons (committed : db.commit transaction = .ok next) :
    db.commitAll (transaction :: rest) = next.commitAll rest := by
  rw [commitAll, committed]

theorem commitAll_cons_error {message : String}
    (failed : db.commit transaction = .error message) :
    db.commitAll (transaction :: rest) = (.error message, db) := by
  rw [commitAll, failed]

theorem commit_replaceValueRecords {records : List (LocalValueRecord H)}
    (nodup : (records.map LocalValueRecord.recordId).Nodup) :
    db.commit (.replaceValueRecords records) = .ok (db.withRecords records nodup) :=
  dif_pos nodup

theorem commit_replaceValueRecords_of_repeated {records : List (LocalValueRecord H)}
    (repeated : ¬ (records.map LocalValueRecord.recordId).Nodup) :
    db.commit (.replaceValueRecords records) =
      .error "UNIQUE constraint failed: value_records.record_id" :=
  dif_neg repeated

/-- The result of an operation is forgotten. -/
def forget {α : Type} (plan : Except String (Planned H α)) : Except String (Planned H Unit) :=
  plan.map fun planned => ((), planned.2)

/-- The transactions that a call commits. -/
def plan (db : LocalWalletDB H) : WalletCall H → Except String (Planned H Unit)
  | .addGenesisValue value recordId => forget (db.addGenesisValue value recordId)
  | .receiveTransfer package context recordId =>
      forget (db.receiveTransfer package context recordId)
  | .buildBundle call => forget (db.buildBundle call)
  | .onReceiptConfirmed receipt => forget (db.onReceiptConfirmed receipt)
  | .markReceiptMissing seq => forget (db.markReceiptMissing seq)
  | .rollbackPendingBundle seq => forget (db.rollbackPendingBundle seq)
  | .observeCanonicalHeader header => observeCanonicalHeader header

/-- The database after a call, which may raise. -/
def perform (db : LocalWalletDB H) (call : WalletCall H) : LocalWalletDB H :=
  (db.execute (db.plan call)).2

/-- The database after calls in order. -/
def run (db : LocalWalletDB H) (calls : List (WalletCall H)) : LocalWalletDB H :=
  calls.foldl perform db

@[simp]
theorem run_nil (db : LocalWalletDB H) : db.run [] = db := rfl

@[simp]
theorem run_concat (db : LocalWalletDB H) (calls : List (WalletCall H)) (call : WalletCall H) :
    db.run (calls ++ [call]) = (db.run calls).perform call := by
  rw [run, List.foldl_append]
  rfl

theorem execute_forget_snd {α : Type} (plan : Except String (Planned H α)) :
    (db.execute (forget plan)).2 = (db.execute plan).2 := by
  cases plan with
  | error message => rfl
  | ok planned =>
      simp only [forget, Except.map, execute]
      cases db.commitAll planned.2 with
      | mk done after => cases done <;> rfl

end Commit

/-! ## Records of a confirmed unit -/

/-- A record after the confirmation of an own bundle. -/
def confirmRecord (unit : ConfirmedBundleUnit H) (pendingRecordIds outgoingRecordIds : List String)
    (record : LocalValueRecord H) : LocalValueRecord H :=
  if record.localStatus = .archived then record
  else if record.recordId ∈ pendingRecordIds then
    appendToRecord unit
      (if record.recordId ∈ outgoingRecordIds then .archived else .verifiedSpendable) record
  else if record.localStatus = .pendingBundle then record
  else if unit.receipt.headerLite.height ≤ record.acquisitionHeight then record
  else appendToRecord unit .verifiedSpendable record

theorem applyConfirmedUnitToRecords_nil (address : Address) (unit : ConfirmedBundleUnit H)
    (pendingRecordIds outgoingRecordIds : List String) (recordIds : ℕ → String)
    (records : List (LocalValueRecord H)) (index : ℕ) :
    applyConfirmedUnitToRecords address unit [] pendingRecordIds outgoingRecordIds recordIds
        records index =
      .ok (records.map (confirmRecord unit pendingRecordIds outgoingRecordIds)) := by
  induction records generalizing index with
  | nil => rfl
  | cons record rest induction =>
      have no_targets : (sortRanges []).filter (fun target => record.value.containsRange target) =
          [] := rfl
      rw [applyConfirmedUnitToRecords, induction, no_targets, List.map_cons, confirmRecord]
      simp only [if_true]
      split_ifs <;> rfl

section Frame

variable (unit : ConfirmedBundleUnit H) (pendingRecordIds outgoingRecordIds : List String)
  (record : LocalValueRecord H)

@[simp]
theorem recordId_confirmRecord :
    (confirmRecord unit pendingRecordIds outgoingRecordIds record).recordId = record.recordId := by
  rw [confirmRecord]
  split_ifs <;> rfl

@[simp]
theorem value_confirmRecord :
    (confirmRecord unit pendingRecordIds outgoingRecordIds record).value = record.value := by
  rw [confirmRecord]
  split_ifs <;> rfl

@[simp]
theorem acquisitionHeight_confirmRecord :
    (confirmRecord unit pendingRecordIds outgoingRecordIds record).acquisitionHeight =
      record.acquisitionHeight := by
  rw [confirmRecord]
  split_ifs <;> rfl

end Frame

section Checked

variable [Crypto H] {db : LocalWalletDB H}

/-! ## Bundles -/

/-- What `build_bundle` has checked and computed when it succeeds. -/
structure BundleBuilt (db : LocalWalletDB H) (call : BundleCall) (context : PendingBundleContext H)
    (marked : List (LocalValueRecord H × Option Bool)) : Prop where
  account : Crypto.addressFromPublicKeyPem H call.publicKeyPem = .ok db.address
  free : db.pendingBundles.keys = []
  txList_ne_nil : call.txList ≠ []
  sealed : db.sealBundle call = .ok (context.sidecar, context.envelope)
  context_eq : context = pendingContext call (sortRanges (call.txList.flatMap OffChainTx.valueList))
    (.ofMarked marked) context.sidecar context.envelope
  ordered : InOrder context.outgoingValues
  split : db.SplitOf call.recordIds context.outgoingValues marked

theorem buildBundle_built {call : BundleCall} {submission : BundleSubmission H}
    {context : PendingBundleContext H} {transactions : List (Transaction H)}
    (built : db.buildBundle call = .ok ((submission, context), transactions)) :
    ∃ marked, db.BundleBuilt call context marked ∧
      submission = ⟨context.envelope, context.sidecar, call.publicKeyPem⟩ ∧
      transactions = [.saveSidecar context.sidecar, .savePendingBundle context,
        .replaceValueRecords (marked.map Prod.fst)] := by
  simp only [buildBundle, bind_eq_ok, require_eq_ok, exists_const, pure_eq_ok, Prod.exists,
    Prod.mk.injEq, ensureNonOverlappingTargets] at built
  obtain ⟨_, account, rfl, free, nonempty, _, ⟨apart, rfl⟩, assignments, assigned, split,
    split_eq, sidecar, envelope, sealed, ⟨rfl, rfl⟩, rfl⟩ := built
  obtain ⟨groups, count, into, rfl, drawn⟩ := splitRecords_groups split_eq
  have ordered := inOrder_sortRanges apart
  exact ⟨groups.flatten,
    { account := account
      free := free
      txList_ne_nil := nonempty
      sealed := sealed
      context_eq := rfl
      ordered := ordered
      split := splitOf_groups (assignTargetsToRecords_assigned assigned) into drawn }, rfl, rfl⟩

section Marks

variable {call : BundleCall} {context : PendingBundleContext H}
  {marked : List (LocalValueRecord H × Option Bool)}

/-- The pending bundle lists the ids of the reserved records. -/
theorem BundleBuilt.mem_pendingRecordIds_iff (built : db.BundleBuilt call context marked)
    {recordId : String} : recordId ∈ context.pendingRecordIds ↔
      ∃ record outgoing, (record, some outgoing) ∈ marked ∧ record.recordId = recordId := by
  have pending_eq : context.pendingRecordIds = (marked.filter fun item => item.2.isSome).map
      fun item => item.1.recordId := by
    rw [built.context_eq]
    rfl
  rw [pending_eq, List.mem_map]
  constructor
  · rintro ⟨⟨record, mark⟩, item_mem, id_eq⟩
    obtain ⟨marked_mem, is_some⟩ := List.mem_filter.mp item_mem
    obtain ⟨outgoing, rfl⟩ := Option.isSome_iff_exists.mp is_some
    exact ⟨record, outgoing, marked_mem, id_eq⟩
  · rintro ⟨record, outgoing, marked_mem, id_eq⟩
    exact ⟨_, List.mem_filter.mpr ⟨marked_mem, rfl⟩, id_eq⟩

/-- It lists the ids of the outgoing ones among them a second time. -/
theorem BundleBuilt.mem_outgoingRecordIds_iff (built : db.BundleBuilt call context marked)
    {recordId : String} : recordId ∈ context.outgoingRecordIds ↔
      ∃ record, (record, some true) ∈ marked ∧ record.recordId = recordId := by
  have outgoing_eq : context.outgoingRecordIds = (marked.filter fun item => item.2 = some true).map
      fun item => item.1.recordId := by
    rw [built.context_eq]
    rfl
  rw [outgoing_eq, List.mem_map]
  constructor
  · rintro ⟨⟨record, mark⟩, item_mem, id_eq⟩
    obtain ⟨marked_mem, mark_eq⟩ := List.mem_filter.mp item_mem
    obtain rfl := of_decide_eq_true mark_eq
    exact ⟨record, marked_mem, id_eq⟩
  · rintro ⟨record, marked_mem, id_eq⟩
    exact ⟨_, List.mem_filter.mpr ⟨marked_mem, decide_eq_true rfl⟩, id_eq⟩

/-- A reserved record waits for the receipt. -/
theorem BundleBuilt.status_reserved (built : db.BundleBuilt call context marked)
    {record : LocalValueRecord H} {outgoing : Bool}
    (marked_mem : (record, some outgoing) ∈ marked) :
    record.localStatus = .pendingBundle := by
  obtain ⟨source, _, _, _, record_eq⟩ := built.split.reserved record outgoing marked_mem
  rw [record_eq]
  rfl

omit [Crypto H] in
theorem marked_inj (nodup : ((marked.map Prod.fst).map LocalValueRecord.recordId).Nodup)
    {left right : LocalValueRecord H × Option Bool} (left_mem : left ∈ marked)
    (right_mem : right ∈ marked) (id_eq : left.1.recordId = right.1.recordId) : left = right := by
  rw [List.map_map] at nodup
  exact List.inj_on_of_nodup_map nodup left_mem right_mem id_eq

end Marks

variable [DecidableEq H]

/-- The database after a bundle was built. -/
def afterBundle (db : LocalWalletDB H) (context : PendingBundleContext H)
    (records : List (LocalValueRecord H))
    (nodup : (records.map LocalValueRecord.recordId).Nodup) : LocalWalletDB H :=
  { db with
    bundleSidecars := db.bundleSidecars.set (computeBundleHash context.sidecar) context.sidecar
    pendingBundles := db.pendingBundles.set context.seq context }.withRecords records nodup

theorem mem_records_afterBundle {context : PendingBundleContext H}
    {marked : List (LocalValueRecord H × Option Bool)}
    {nodup : ((marked.map Prod.fst).map LocalValueRecord.recordId).Nodup}
    {record : LocalValueRecord H} :
    record ∈ (db.afterBundle context (marked.map Prod.fst) nodup).records ↔
      ∃ mark, (record, mark) ∈ marked := by
  rw [afterBundle, mem_records_withRecords]
  simp

theorem commit_savePendingBundle (db : LocalWalletDB H) (free : db.pendingBundles.keys = [])
    (context : PendingBundleContext H) : db.commit (.savePendingBundle context) =
      .ok { db with pendingBundles := db.pendingBundles.set context.seq context } := by
  have empty := (OrderedDict.keys_eq_nil_iff _).mp free
  rw [commit, empty]
  rfl

theorem BundleBuilt.commitAll_eq {call : BundleCall} {context : PendingBundleContext H}
    {marked : List (LocalValueRecord H × Option Bool)} (built : db.BundleBuilt call context marked)
    (nodup : ((marked.map Prod.fst).map LocalValueRecord.recordId).Nodup) :
    db.commitAll [.saveSidecar context.sidecar, .savePendingBundle context,
      .replaceValueRecords (marked.map Prod.fst)] =
        (.ok (), db.afterBundle context (marked.map Prod.fst) nodup) := by
  let withSidecar : LocalWalletDB H :=
    { db with
      bundleSidecars := db.bundleSidecars.set (computeBundleHash context.sidecar) context.sidecar }
  have saved := commit_savePendingBundle withSidecar built.free context
  rw [commitAll_cons rfl, commitAll_cons saved, commitAll_cons (commit_replaceValueRecords nodup)]
  rfl

/-- The database once a pending bundle is saved and before the records are. -/
def withPendingBundle (db : LocalWalletDB H) (context : PendingBundleContext H) : LocalWalletDB H :=
  { db with
    bundleSidecars := db.bundleSidecars.set (computeBundleHash context.sidecar) context.sidecar
    pendingBundles := db.pendingBundles.set context.seq context }

/-- At most one bundle is pending. -/
def OnePending (db : LocalWalletDB H) : Prop :=
  ∀ seq other context otherContext, db.getPendingBundle seq = some context →
    db.getPendingBundle other = some otherContext → seq = other

omit [Crypto H] [DecidableEq H] in
theorem onePending_of_none (none_pending : ∀ seq, db.getPendingBundle seq = none) :
    db.OnePending := by
  intro seq _ _ _ found
  rw [none_pending] at found
  cases found

omit [Crypto H] [DecidableEq H] in
theorem OnePending.get?_erase (one : db.OnePending) {seq : ℕ} {context : PendingBundleContext H}
    (pending : db.getPendingBundle seq = some context) (other : ℕ) :
    (db.pendingBundles.erase seq).get? other = none := by
  rw [OrderedDict.get?_erase]
  split
  · rfl
  · next seq_ne =>
      cases found : db.pendingBundles.get? other with
      | none => rfl
      | some otherContext => exact absurd (one seq other context otherContext pending found) seq_ne

omit [Crypto H] [DecidableEq H] in
theorem getPendingBundle_of_free (free : db.pendingBundles.keys = []) (seq : ℕ) :
    db.getPendingBundle seq = none := by
  rw [getPendingBundle, (OrderedDict.keys_eq_nil_iff _).mp free]
  rfl

/-- A saved context is the only one. -/
theorem getPendingBundle_withPendingBundle (free : db.pendingBundles.keys = [])
    {context other : PendingBundleContext H} {seq : ℕ} :
    (db.withPendingBundle context).getPendingBundle seq = some other ↔
      context.seq = seq ∧ context = other := by
  rw [getPendingBundle, withPendingBundle, (OrderedDict.keys_eq_nil_iff _).mp free,
    OrderedDict.get?_set]
  split
  · next seq_eq => simp [seq_eq]
  · next seq_ne => simp [seq_ne]

theorem onePending_withPendingBundle (free : db.pendingBundles.keys = [])
    (context : PendingBundleContext H) : (db.withPendingBundle context).OnePending := by
  intro seq other _ _ found other_found
  have seq_eq := ((getPendingBundle_withPendingBundle free).mp found).1
  have other_eq := ((getPendingBundle_withPendingBundle free).mp other_found).1
  exact seq_eq.symm.trans other_eq

/-! ## Receipts -/

/-- What `on_receipt_confirmed` has checked before its first transaction. -/
structure ReceiptChecked (db : LocalWalletDB H) (receipt : Receipt H)
    (context : PendingBundleContext H) : Prop where
  pending : db.getPendingBundle receipt.seq = some context
  known : db.knowsCanonicalHeader receipt.headerLite = true
  prevRef : db.checkPrevRef receipt = .ok ()
  stateProof : ∃ proof, receipt.accountStateProof = some proof ∧
    verifyProof receipt.headerLite.stateRoot (computeAddrKey H db.address).bytes
      (hashAccountLeaf (reconstructedLeaf ⟨receipt, context.sidecar⟩)) proof 256 = true

/-- The unit that a receipt confirms. -/
def confirmedUnit (receipt : Receipt H) (context : PendingBundleContext H) :
    ConfirmedBundleUnit H := ⟨receipt, context.sidecar⟩

/-- The database after a receipt was applied. -/
def afterReceipt (db : LocalWalletDB H) (receipt : Receipt H) (context : PendingBundleContext H) :
    LocalWalletDB H :=
  { db with
    receipts := db.receipts.set receipt.seq (receiptRef receipt context.bundleHash, receipt)
    confirmedUnits := db.confirmedUnits.set (confirmedRef (confirmedUnit receipt context))
      (confirmedUnit receipt context)
    pendingBundles := db.pendingBundles.erase receipt.seq }.mapRecords
      (confirmRecord (confirmedUnit receipt context) context.pendingRecordIds
        context.outgoingRecordIds) (recordId_confirmRecord _ _ _)

/-- The transactions of an applied receipt. -/
def receiptTransactions (db : LocalWalletDB H) (receipt : Receipt H)
    (context : PendingBundleContext H) : List (Transaction H) :=
  [.saveReceipt receipt context.bundleHash, .saveConfirmedUnit (confirmedUnit receipt context),
    .deletePendingBundle receipt.seq, .replaceValueRecords (db.records.map
      (confirmRecord (confirmedUnit receipt context) context.pendingRecordIds
        context.outgoingRecordIds))]

theorem onReceiptConfirmed_eq_ok {receipt : Receipt H} {unit : ConfirmedBundleUnit H}
    {transactions : List (Transaction H)} :
    db.onReceiptConfirmed receipt = .ok (unit, transactions) ↔
      ∃ context, db.ReceiptChecked receipt context ∧ unit = confirmedUnit receipt context ∧
        transactions = db.receiptTransactions receipt context := by
  simp only [onReceiptConfirmed, applyConfirmedUnitToRecords_nil, bind_eq_ok, demand_eq_ok,
    require_eq_ok, exists_const, pure_eq_ok, Except.ok.injEq, exists_eq_left', Prod.mk.injEq]
  constructor
  · rintro ⟨context, pending, known, _, prev, proof, proof_eq, verified, rfl, rfl⟩
    exact ⟨context, ⟨pending, known, prev, proof, proof_eq, verified⟩, rfl, rfl⟩
  · rintro ⟨context, ⟨pending, known, prev, proof, proof_eq, verified⟩, rfl, rfl⟩
    exact ⟨context, pending, known, (), prev, proof, proof_eq, verified, rfl, rfl⟩

/-- The reference of a receipt is a unique column of the receipt table. -/
def RefUnused (db : LocalWalletDB H) (receipt : Receipt H) (context : PendingBundleContext H) :
    Prop :=
  ∀ entry ∈ db.receipts.entries, entry.2.1 = receiptRef receipt context.bundleHash →
    entry.1 = receipt.seq

instance (receipt : Receipt H) (context : PendingBundleContext H) :
    Decidable (db.RefUnused receipt context) :=
  inferInstanceAs (Decidable (∀ entry ∈ db.receipts.entries, _))

theorem commit_saveReceipt {receipt : Receipt H} {context : PendingBundleContext H}
    (unused : db.RefUnused receipt context) :
    db.commit (.saveReceipt receipt context.bundleHash) = .ok { db with
      receipts := db.receipts.set receipt.seq
        (receiptRef receipt context.bundleHash, receipt) } := by
  rw [RefUnused] at unused
  rw [commit, require_of unused]
  rfl

theorem commit_saveReceipt_of_used {receipt : Receipt H} {context : PendingBundleContext H}
    (used : ¬ db.RefUnused receipt context) :
    db.commit (.saveReceipt receipt context.bundleHash) =
      .error "UNIQUE constraint failed: receipts.bundle_ref_key" := by
  rw [RefUnused] at used
  rw [commit, require, if_neg used]
  rfl

theorem commitAll_receipt {receipt : Receipt H} {context : PendingBundleContext H}
    (unused : db.RefUnused receipt context) :
    db.commitAll (db.receiptTransactions receipt context) =
      (.ok (), db.afterReceipt receipt context) := by
  have nodup := db.nodup_map_recordId (recordId_confirmRecord (confirmedUnit receipt context)
    context.pendingRecordIds context.outgoingRecordIds)
  rw [receiptTransactions, commitAll_cons (commit_saveReceipt unused), commitAll_cons rfl,
    commitAll_cons rfl, commitAll_cons (commit_replaceValueRecords nodup)]
  rfl

theorem commitAll_receipt_of_used {receipt : Receipt H} {context : PendingBundleContext H}
    (used : ¬ db.RefUnused receipt context) :
    ∃ message, db.commitAll (db.receiptTransactions receipt context) = (.error message, db) :=
  ⟨_, commitAll_cons_error (commit_saveReceipt_of_used used)⟩

end Checked

/-! ## Missing receipts and rollbacks -/

section Released

variable {db : LocalWalletDB H}

/-- A record whose receipt is missing. -/
def missRecord (pendingRecordIds : List String) (record : LocalValueRecord H) :
    LocalValueRecord H :=
  if record.recordId ∈ pendingRecordIds ∧ record.localStatus = .pendingBundle then
    { record with localStatus := .receiptMissing }
  else record

/-- A record whose bundle is rolled back. -/
def releaseRecord (pendingRecordIds : List String) (record : LocalValueRecord H) :
    LocalValueRecord H :=
  if record.recordId ∈ pendingRecordIds then { record with localStatus := .verifiedSpendable }
  else record

@[simp]
theorem recordId_missRecord (pendingRecordIds : List String) (record : LocalValueRecord H) :
    (missRecord pendingRecordIds record).recordId = record.recordId := by
  rw [missRecord]
  split_ifs <;> rfl

@[simp]
theorem value_missRecord (pendingRecordIds : List String) (record : LocalValueRecord H) :
    (missRecord pendingRecordIds record).value = record.value := by
  rw [missRecord]
  split_ifs <;> rfl

@[simp]
theorem value_releaseRecord (pendingRecordIds : List String) (record : LocalValueRecord H) :
    (releaseRecord pendingRecordIds record).value = record.value := by
  rw [releaseRecord]
  split_ifs <;> rfl

@[simp]
theorem recordId_releaseRecord (pendingRecordIds : List String) (record : LocalValueRecord H) :
    (releaseRecord pendingRecordIds record).recordId = record.recordId := by
  rw [releaseRecord]
  split_ifs <;> rfl

/-- The database after a bundle was rolled back. -/
def afterRollback (db : LocalWalletDB H) (context : PendingBundleContext H) (seq : ℕ) :
    LocalWalletDB H :=
  { db with pendingBundles := db.pendingBundles.erase seq }.mapRecords
    (releaseRecord context.pendingRecordIds) (recordId_releaseRecord _)

theorem rollbackPendingBundle_eq_ok {seq : ℕ} {context : PendingBundleContext H}
    {transactions : List (Transaction H)} :
    db.rollbackPendingBundle seq = .ok (context, transactions) ↔
      db.getPendingBundle seq = some context ∧ transactions = [.deletePendingBundle seq,
        .replaceValueRecords (db.records.map (releaseRecord context.pendingRecordIds))] := by
  simp only [rollbackPendingBundle, bind_eq_ok, demand_eq_ok, pure_eq_ok, Prod.mk.injEq]
  constructor
  · rintro ⟨_, found, rfl, rfl⟩
    exact ⟨found, rfl⟩
  · rintro ⟨found, rfl⟩
    exact ⟨context, found, rfl, rfl⟩

theorem markReceiptMissing_eq_ok {seq : ℕ} {context : PendingBundleContext H}
    {transactions : List (Transaction H)} :
    db.markReceiptMissing seq = .ok (context, transactions) ↔
      db.getPendingBundle seq = some context ∧ transactions =
        [.replaceValueRecords (db.records.map (missRecord context.pendingRecordIds))] := by
  simp only [markReceiptMissing, bind_eq_ok, demand_eq_ok, pure_eq_ok, Prod.mk.injEq]
  constructor
  · rintro ⟨_, found, rfl, rfl⟩
    exact ⟨found, rfl⟩
  · rintro ⟨found, rfl⟩
    exact ⟨context, found, rfl, rfl⟩

end Released

/-! ## One call -/

section Perform

variable [Crypto H] [DecidableEq H] {db : LocalWalletDB H}

theorem perform_of_error {call : WalletCall H} {message : String}
    (raised : db.plan call = .error message) : db.perform call = db := by
  rw [perform, raised]
  rfl

theorem execute_snd_of_ok {α : Type} {plan : Except String (Planned H α)} {result : α}
    {transactions : List (Transaction H)} (planned : plan = .ok (result, transactions)) :
    (db.execute plan).2 = (db.commitAll transactions).2 := by
  rw [planned, execute]
  cases db.commitAll transactions with
  | mk done after => cases done <;> rfl

theorem perform_of_ok {call : WalletCall H} {transactions : List (Transaction H)}
    (planned : db.plan call = .ok ((), transactions)) :
    db.perform call = (db.commitAll transactions).2 :=
  execute_snd_of_ok planned

theorem execute_eq_ok {α : Type} {plan : Except String (Planned H α)} {result : α} :
    (db.execute plan).1 = .ok result ↔
      ∃ transactions, plan = .ok (result, transactions) ∧
        (db.commitAll transactions).1 = .ok () := by
  cases plan with
  | error message => simp [execute]
  | ok planned =>
      obtain ⟨value, transactions⟩ := planned
      simp only [execute, Except.ok.injEq, Prod.mk.injEq, and_assoc, exists_and_left,
        exists_eq_left']
      cases db.commitAll transactions with
      | mk done after => cases done <;> simp

/-- Building with fresh ids stores a context and splits the records, or changes nothing. -/
theorem perform_buildBundle (call : BundleCall) (fresh : db.FreshIds call.recordIds) :
    db.perform (.buildBundle call) = db ∨
      ∃ context marked nodup, db.BundleBuilt call context marked ∧
        db.perform (.buildBundle call) = db.afterBundle context (marked.map Prod.fst) nodup := by
  cases planned : db.buildBundle call with
  | error message => exact .inl (perform_of_error (by rw [plan, planned]; rfl))
  | ok result =>
      obtain ⟨⟨submission, context⟩, transactions⟩ := result
      obtain ⟨marked, built, _, rfl⟩ := buildBundle_built planned
      have nodup : ((marked.map Prod.fst).map LocalValueRecord.recordId).Nodup := by
        rw [List.map_map]
        exact built.split.ids_nodup fresh
      refine .inr ⟨context, marked, nodup, built, ?_⟩
      rw [perform_of_ok (by rw [plan, planned]; rfl), built.commitAll_eq nodup]

/-- Applying a receipt succeeds when it passes the checks and its reference is not taken. -/
theorem execute_onReceiptConfirmed_eq_ok {receipt : Receipt H} {unit : ConfirmedBundleUnit H} :
    (db.execute (db.onReceiptConfirmed receipt)).1 = .ok unit ↔
      ∃ context, db.ReceiptChecked receipt context ∧ db.RefUnused receipt context ∧
        unit = confirmedUnit receipt context := by
  simp only [execute_eq_ok, onReceiptConfirmed_eq_ok]
  constructor
  · rintro ⟨_, ⟨context, checked, rfl, rfl⟩, committed⟩
    refine ⟨context, checked, ?_, rfl⟩
    by_contra used
    obtain ⟨message, failed⟩ := commitAll_receipt_of_used used
    rw [failed] at committed
    cases committed
  · rintro ⟨context, checked, unused, rfl⟩
    exact ⟨_, ⟨context, checked, rfl, rfl⟩, by rw [commitAll_receipt unused]⟩

theorem ReceiptChecked.perform_eq {receipt : Receipt H} {context : PendingBundleContext H}
    (checked : db.ReceiptChecked receipt context) (unused : db.RefUnused receipt context) :
    db.perform (.onReceiptConfirmed receipt) = db.afterReceipt receipt context := by
  have planned := onReceiptConfirmed_eq_ok.mpr ⟨context, checked, rfl, rfl⟩
  rw [perform_of_ok (by rw [plan, planned]; rfl), commitAll_receipt unused]

/-- A receipt is applied, or changes nothing. -/
theorem perform_onReceiptConfirmed (receipt : Receipt H) :
    db.perform (.onReceiptConfirmed receipt) = db ∨
      ∃ context, db.ReceiptChecked receipt context ∧ db.RefUnused receipt context ∧
        db.perform (.onReceiptConfirmed receipt) = db.afterReceipt receipt context := by
  cases planned : db.onReceiptConfirmed receipt with
  | error message => exact .inl (perform_of_error (by rw [plan, planned]; rfl))
  | ok result =>
      obtain ⟨unit, transactions⟩ := result
      obtain ⟨context, checked, rfl, rfl⟩ := onReceiptConfirmed_eq_ok.mp planned
      by_cases unused : db.RefUnused receipt context
      · exact .inr ⟨context, checked, unused, checked.perform_eq unused⟩
      · obtain ⟨message, failed⟩ := commitAll_receipt_of_used unused
        exact .inl (by rw [perform_of_ok (by rw [plan, planned]; rfl), failed])

/-- Rolling back a pending bundle always succeeds. -/
theorem perform_rollbackPendingBundle {seq : ℕ} {context : PendingBundleContext H}
    (pending : db.getPendingBundle seq = some context) :
    db.perform (.rollbackPendingBundle seq) = db.afterRollback context seq ∧
      (db.execute (db.rollbackPendingBundle seq)).1 = .ok context := by
  have planned := rollbackPendingBundle_eq_ok.mpr ⟨pending, rfl⟩
  have nodup := db.nodup_map_recordId (recordId_releaseRecord context.pendingRecordIds)
  have committed : db.commitAll [.deletePendingBundle seq, .replaceValueRecords
      (db.records.map (releaseRecord context.pendingRecordIds))] =
        (.ok (), db.afterRollback context seq) := by
    rw [commitAll_cons rfl, commitAll_cons (commit_replaceValueRecords nodup)]
    rfl
  constructor
  · rw [perform_of_ok (by rw [plan, planned]; rfl), committed]
  · exact execute_eq_ok.mpr ⟨_, planned, by rw [committed]⟩

theorem perform_rollbackPendingBundle_of_none {seq : ℕ} (absent : db.getPendingBundle seq = none) :
    db.perform (.rollbackPendingBundle seq) = db := by
  apply perform_of_error
  rw [plan, rollbackPendingBundle, absent]
  rfl

theorem perform_markReceiptMissing {seq : ℕ} {context : PendingBundleContext H}
    (pending : db.getPendingBundle seq = some context) :
    db.perform (.markReceiptMissing seq) =
      db.mapRecords (missRecord context.pendingRecordIds) (recordId_missRecord _) := by
  have planned := markReceiptMissing_eq_ok.mpr ⟨pending, rfl⟩
  have nodup := db.nodup_map_recordId (recordId_missRecord context.pendingRecordIds)
  rw [perform_of_ok (by rw [plan, planned]; rfl), commitAll_cons (commit_replaceValueRecords nodup)]
  rfl

theorem perform_markReceiptMissing_of_none {seq : ℕ} (absent : db.getPendingBundle seq = none) :
    db.perform (.markReceiptMissing seq) = db := by
  apply perform_of_error
  rw [plan, markReceiptMissing, absent]
  rfl

theorem perform_observeCanonicalHeader (header : HeaderLite H) :
    db.perform (.observeCanonicalHeader header) =
      { db with canonicalHeaders := db.canonicalHeaders.set header.height header } := rfl

/-! ## Acquiring values -/

/-- The transactions of a received package. -/
def receiveTransactions (db : LocalWalletDB H) (package : TransferPackage H)
    (record : LocalValueRecord H) : List (Transaction H) :=
  package.witnessV2.sidecars.map Transaction.saveSidecar ++
    [.replaceValueRecords (db.records ++ [record]),
      .saveAcceptedTransferPackage (transferPackageHash package)]

theorem receiveTransfer_eq_ok {package : TransferPackage H} {context : ValidationContext H}
    {recordId : String} {record : LocalValueRecord H} {transactions : List (Transaction H)} :
    db.receiveTransfer package context recordId = .ok (record, transactions) ↔
      ∃ newest, db.PackageChecked package context newest ∧
        record = db.receivedRecord package recordId newest ∧
        transactions = db.receiveTransactions package record := by
  simp only [receiveTransfer, bind_eq_ok, pure_eq_ok, Prod.mk.injEq,
    WalletAccountV2.checkedRecord_eq_ok]
  constructor
  · rintro ⟨_, ⟨newest, checked, rfl⟩, rfl, rfl⟩
    exact ⟨newest, checked, rfl, rfl⟩
  · rintro ⟨newest, checked, rfl, rfl⟩
    exact ⟨_, ⟨newest, checked, rfl⟩, rfl, rfl⟩

/-- The database with more bundle sidecars. -/
def withSidecars (db : LocalWalletDB H) (sidecars : List BundleSidecar) : LocalWalletDB H :=
  { db with
    bundleSidecars := sidecars.foldl (fun saved sidecar =>
      saved.set (computeBundleHash sidecar) sidecar) db.bundleSidecars }

theorem commitAll_saveSidecars (db : LocalWalletDB H) (sidecars : List BundleSidecar)
    (rest : List (Transaction H)) :
    db.commitAll (sidecars.map Transaction.saveSidecar ++ rest) =
      (db.withSidecars sidecars).commitAll rest := by
  induction sidecars generalizing db with
  | nil => rfl
  | cons sidecar sidecars induction =>
      rw [List.map_cons, List.cons_append, commitAll_cons rfl, induction]
      rfl

omit [Crypto H] [DecidableEq H] in
theorem nodup_concat_recordId (db : LocalWalletDB H) {record : LocalValueRecord H}
    (fresh : record.recordId ∉ db.records.map LocalValueRecord.recordId) :
    ((db.records ++ [record]).map LocalValueRecord.recordId).Nodup := by
  rw [List.map_append]
  exact List.Nodup.append db.recordIds_nodup (List.nodup_singleton _)
    (List.disjoint_singleton.mpr fresh)

/-- The database with one more record. -/
def withRecord (db : LocalWalletDB H) (record : LocalValueRecord H)
    (fresh : record.recordId ∉ db.records.map LocalValueRecord.recordId) : LocalWalletDB H :=
  db.withRecords (db.records ++ [record]) (db.nodup_concat_recordId fresh)

theorem commit_withRecord {record : LocalValueRecord H}
    (fresh : record.recordId ∉ db.records.map LocalValueRecord.recordId) :
    db.commit (.replaceValueRecords (db.records ++ [record])) = .ok (db.withRecord record fresh) :=
  commit_replaceValueRecords (db.nodup_concat_recordId fresh)

/-- A record under a taken id is not stored. -/
theorem commit_withRecord_of_taken {record : LocalValueRecord H}
    (taken : record.recordId ∈ db.records.map LocalValueRecord.recordId) :
    db.commit (.replaceValueRecords (db.records ++ [record])) =
      .error "UNIQUE constraint failed: value_records.record_id" := by
  refine commit_replaceValueRecords_of_repeated fun nodup => ?_
  rw [List.map_append] at nodup
  exact (List.nodup_append.mp nodup).2.2 _ taken _ (List.mem_singleton_self _) rfl

/-- The database after a package was received. -/
def afterReceiving (db : LocalWalletDB H) (package : TransferPackage H)
    (record : LocalValueRecord H)
    (fresh : record.recordId ∉ db.records.map LocalValueRecord.recordId) : LocalWalletDB H :=
  { (db.withSidecars package.witnessV2.sidecars).withRecord record fresh with
    acceptedTransferPackages := transferPackageHash package :: db.acceptedTransferPackages }

theorem commitAll_receive {package : TransferPackage H} {record : LocalValueRecord H}
    (new : transferPackageHash package ∉ db.acceptedTransferPackages)
    (fresh : record.recordId ∉ db.records.map LocalValueRecord.recordId) :
    db.commitAll (db.receiveTransactions package record) =
      (.ok (), db.afterReceiving package record fresh) := by
  let saved := db.withSidecars package.witnessV2.sidecars
  have stored : saved.commit (.replaceValueRecords (db.records ++ [record])) =
      .ok (saved.withRecord record fresh) := commit_replaceValueRecords _
  have marked : (saved.withRecord record fresh).commit
      (.saveAcceptedTransferPackage (transferPackageHash package)) =
        .ok (db.afterReceiving package record fresh) := by
    have new : transferPackageHash package ∉
        (saved.withRecord record fresh).acceptedTransferPackages := new
    rw [commit, if_neg new]
    rfl
  rw [receiveTransactions, commitAll_saveSidecars, commitAll_cons stored, commitAll_cons marked]
  rfl

/-- The package is stored under the id. -/
structure Stores (db : LocalWalletDB H) (package : TransferPackage H)
    (context : ValidationContext H) (recordId : String) (newest : ConfirmedBundleUnit H) : Prop
    extends db.PackageChecked package context newest where
  fresh : recordId ∉ db.records.map LocalValueRecord.recordId

theorem Stores.perform_eq {package : TransferPackage H} {context : ValidationContext H}
    {recordId : String} {newest : ConfirmedBundleUnit H}
    (stores : db.Stores package context recordId newest) :
    db.perform (.receiveTransfer package context recordId) =
      db.afterReceiving package (db.receivedRecord package recordId newest) stores.fresh := by
  have planned : db.receiveTransfer package context recordId =
      .ok (db.receivedRecord package recordId newest,
        db.receiveTransactions package (db.receivedRecord package recordId newest)) :=
    receiveTransfer_eq_ok.mpr ⟨newest, stores.toPackageChecked, rfl, rfl⟩
  rw [perform_of_ok (by rw [plan, planned]; rfl), commitAll_receive stores.new stores.fresh]

/-- A package is stored, or the records and the accepted packages stay as they are. -/
theorem perform_receiveTransfer (package : TransferPackage H) (context : ValidationContext H)
    (recordId : String) :
    (∃ newest, db.Stores package context recordId newest) ∨
      ∃ sidecars, db.perform (.receiveTransfer package context recordId) =
        db.withSidecars sidecars := by
  cases planned : db.receiveTransfer package context recordId with
  | error message => exact .inr ⟨[], perform_of_error (by rw [plan, planned]; rfl)⟩
  | ok result =>
      obtain ⟨record, transactions⟩ := result
      obtain ⟨newest, checked, rfl, rfl⟩ := receiveTransfer_eq_ok.mp planned
      by_cases fresh : recordId ∈ db.records.map LocalValueRecord.recordId
      · right
        refine ⟨package.witnessV2.sidecars, ?_⟩
        have failed : (db.withSidecars package.witnessV2.sidecars).commit
            (.replaceValueRecords (db.records ++ [db.receivedRecord package recordId newest])) =
              .error "UNIQUE constraint failed: value_records.record_id" :=
          commit_withRecord_of_taken fresh
        rw [perform_of_ok (by rw [plan, planned]; rfl), receiveTransactions,
          commitAll_saveSidecars, commitAll_cons_error failed]
      · exact .inl ⟨newest, checked, fresh⟩

/-- The record of a genesis value. -/
def genesisRecord (db : LocalWalletDB H) (value : ValueRange) (recordId : String) :
    LocalValueRecord H where
  recordId := recordId
  value := value
  witnessV2 := .genesis value db.address [] ⟨db.genesisBlockHash, db.address, value.valueBegin,
    value.valueEnd, value.begin_le_end_int⟩
  localStatus := .verifiedSpendable
  acquisitionHeight := 0

theorem addGenesisValue_eq (value : ValueRange) (recordId : String) :
    db.plan (.addGenesisValue value recordId) =
      .ok ((), [.replaceValueRecords (db.records ++ [db.genesisRecord value recordId])]) := rfl

theorem perform_addGenesisValue {value : ValueRange} {recordId : String}
    (fresh : recordId ∉ db.records.map LocalValueRecord.recordId) :
    db.perform (.addGenesisValue value recordId) =
      db.withRecord (db.genesisRecord value recordId) fresh := by
  rw [perform_of_ok (addGenesisValue_eq value recordId), commitAll_cons (commit_withRecord fresh)]
  rfl

theorem perform_addGenesisValue_of_taken {value : ValueRange} {recordId : String}
    (taken : recordId ∈ db.records.map LocalValueRecord.recordId) :
    db.perform (.addGenesisValue value recordId) = db := by
  rw [perform_of_ok (addGenesisValue_eq value recordId),
    commitAll_cons_error (commit_withRecord_of_taken taken)]

end Perform

end LocalWalletDB

end EZChain
