import EZChain.Wallet.Completeness

/-!
# Stopped calls

A call commits several transactions one after another, and the process may stop between two of
them.  The leading transactions only keep copies of sidecars and receipts; a stop right after them
changes nothing that a call reads, and repeating the call completes it.
-/

namespace EZChain

open Checks Runs

/-- A call that runs to its end, or whose process stops after some of its transactions. -/
inductive WalletStep (H : Type) where
  | completes (call : WalletCall H)
  | stops (call : WalletCall H) (count : ℕ)

/-- The call of a step. -/
def WalletStep.call {H : Type} : WalletStep H → WalletCall H
  | completes call | stops call _ => call

/-- The number of leading transactions that keep copies only. -/
def WalletCall.copies {H : Type} : WalletCall H → ℕ
  | .buildBundle _ | .onReceiptConfirmed _ => 1
  | .receiveTransfer package _ _ => package.witnessV2.sidecars.length
  | .addGenesisValue _ _ | .markReceiptMissing _ | .rollbackPendingBundle _
  | .observeCanonicalHeader _ => 0

namespace LocalWalletDB

variable {H : Type}

/-! ## Consistency -/

/-- The record waits for a receipt or a check. -/
def Waits (record : LocalValueRecord H) : Prop :=
  record.localStatus ≠ .verifiedSpendable ∧ Live record

/-- A stored pending bundle reserves the id. -/
def Reserved (db : LocalWalletDB H) (recordId : String) : Prop :=
  ∃ seq context, db.getPendingBundle seq = some context ∧ recordId ∈ context.pendingRecordIds

/-- The waiting records are exactly those that a pending bundle reserves. -/
def WaitsExactly (db : LocalWalletDB H) : Prop :=
  ∀ recordId, (∃ record ∈ db.records, record.recordId = recordId ∧ Waits record) ↔
    db.Reserved recordId

/-- What a wallet keeps as long as no process stops in the middle of a call. -/
structure Settled (db : LocalWalletDB H) : Prop where
  waitsExactly : db.WaitsExactly
  single : db.OnePending

section Crypto

variable [Crypto H] [DecidableEq H]

/-- The database after the process stopped behind the leading transactions of a call. -/
def stop (db : LocalWalletDB H) (call : WalletCall H) (count : ℕ) : LocalWalletDB H :=
  match db.plan call with
  | .error _ => db
  | .ok planned => (db.commitAll (planned.2.take count)).2

/-- The database after a step. -/
def advance (db : LocalWalletDB H) : WalletStep H → LocalWalletDB H
  | .completes call => db.perform call
  | .stops call count => db.stop call count

/-- What a step leaves behind: only reserved records wait, a unit that was stored is applied to the
records, and a package is marked when its record is stored. -/
structure Consistent (db : LocalWalletDB H) (call : WalletCall H) (after : LocalWalletDB H) :
    Prop where
  waitsExactly : after.WaitsExactly
  applied : ∀ unit ∈ after.confirmedUnits.values, unit ∈ db.confirmedUnits.values ∨
    ∃ context, db.getPendingBundle unit.receipt.seq = some context ∧
      after.getPendingBundle unit.receipt.seq = none ∧
      after.records.Perm (db.records.map
        (confirmRecord unit context.pendingRecordIds context.outgoingRecordIds))
  accepted : ∀ packageHash, packageHash ∈ after.acceptedTransferPackages ↔
    packageHash ∈ db.acceptedTransferPackages ∨ ∃ package context recordId newest,
      call = .receiveTransfer package context recordId ∧
        transferPackageHash package = packageHash ∧
        db.Stores package context recordId newest ∧
        db.receivedRecord package recordId newest ∈ after.records

variable {db : LocalWalletDB H}

/-! ## Waiting records -/

omit [Crypto H] [DecidableEq H] in
theorem waitsExactly_of_none (none_pending : ∀ seq, db.getPendingBundle seq = none)
    (none_waits : ∀ record ∈ db.records, ¬ Waits record) : db.WaitsExactly := by
  intro recordId
  constructor
  · rintro ⟨record, member, _, waits⟩
    exact absurd waits (none_waits record member)
  · rintro ⟨seq, context, found, _⟩
    rw [none_pending] at found
    cases found

omit [Crypto H] [DecidableEq H] in
theorem Settled.reserved_iff (settled : db.Settled) {seq : ℕ} {context : PendingBundleContext H}
    (pending : db.getPendingBundle seq = some context) (recordId : String) :
    db.Reserved recordId ↔ recordId ∈ context.pendingRecordIds := by
  constructor
  · rintro ⟨other, otherContext, found, reserved⟩
    obtain rfl := settled.single other seq otherContext context found pending
    rw [pending] at found
    cases found
    exact reserved
  · exact fun reserved => ⟨seq, context, pending, reserved⟩

omit [Crypto H] [DecidableEq H] in
theorem Settled.mem_pendingRecordIds (settled : db.Settled) {seq : ℕ}
    {context : PendingBundleContext H} (pending : db.getPendingBundle seq = some context)
    {record : LocalValueRecord H} (member : record ∈ db.records) (waits : Waits record) :
    record.recordId ∈ context.pendingRecordIds :=
  (settled.reserved_iff pending _).mp
    ((settled.waitsExactly record.recordId).mp ⟨record, member, rfl, waits⟩)

theorem Settled.afterBundle (settled : db.Settled) {call : BundleCall}
    {context : PendingBundleContext H} {marked : List (LocalValueRecord H × Option Bool)}
    (built : db.BundleBuilt call context marked)
    (nodup : ((marked.map Prod.fst).map LocalValueRecord.recordId).Nodup) :
    (db.afterBundle context (marked.map Prod.fst) nodup).Settled where
  waitsExactly := by
    intro recordId
    constructor
    · rintro ⟨record, member, rfl, waits⟩
      obtain ⟨mark, marked_mem⟩ := mem_records_afterBundle.mp member
      cases mark with
      | none =>
          obtain ⟨seq, other, found, _⟩ := (settled.waitsExactly record.recordId).mp
            ⟨record, built.split.kept record marked_mem, rfl, waits⟩
          rw [getPendingBundle_of_free built.free] at found
          cases found
      | some outgoing =>
          exact ⟨context.seq, context,
            (getPendingBundle_withPendingBundle built.free).mpr ⟨rfl, rfl⟩,
            built.mem_pendingRecordIds_iff.mpr ⟨record, outgoing, marked_mem, rfl⟩⟩
    · rintro ⟨seq, other, found, reserved⟩
      obtain ⟨_, rfl⟩ := (getPendingBundle_withPendingBundle built.free).mp found
      obtain ⟨record, outgoing, marked_mem, rfl⟩ := built.mem_pendingRecordIds_iff.mp reserved
      have status_eq := built.status_reserved marked_mem
      exact ⟨record, mem_records_afterBundle.mpr ⟨_, marked_mem⟩, rfl,
        by simp [Waits, Live, status_eq]⟩
  single := onePending_withPendingBundle built.free context

theorem Settled.afterReceipt (settled : db.Settled) {receipt : Receipt H}
    {context : PendingBundleContext H} (pending : db.getPendingBundle receipt.seq = some context) :
    (db.afterReceipt receipt context).Settled := by
  have none_pending : ∀ seq, (db.afterReceipt receipt context).getPendingBundle seq = none :=
    settled.single.get?_erase pending
  refine ⟨waitsExactly_of_none none_pending fun record member waits => ?_,
    onePending_of_none none_pending⟩
  obtain ⟨source, source_mem, rfl⟩ := mem_mapRecords.mp member
  have unreserved_waits : Waits source → source.recordId ∈ context.pendingRecordIds :=
    settled.mem_pendingRecordIds pending source_mem
  rw [confirmRecord] at waits
  split_ifs at waits with archived reserved outgoing status_eq below
  · exact waits.2 archived
  · exact waits.2 rfl
  · exact waits.1 rfl
  · exact reserved (unreserved_waits waits)
  · exact reserved (unreserved_waits waits)
  · exact waits.1 rfl

omit [Crypto H] [DecidableEq H] in
theorem Settled.afterRollback (settled : db.Settled) {seq : ℕ} {context : PendingBundleContext H}
    (pending : db.getPendingBundle seq = some context) :
    (db.afterRollback context seq).Settled := by
  have none_pending : ∀ other, (db.afterRollback context seq).getPendingBundle other = none :=
    settled.single.get?_erase pending
  refine ⟨waitsExactly_of_none none_pending fun record member waits => ?_,
    onePending_of_none none_pending⟩
  obtain ⟨source, source_mem, rfl⟩ := mem_mapRecords.mp member
  rw [releaseRecord] at waits
  split_ifs at waits with reserved
  · exact waits.1 rfl
  · exact reserved (settled.mem_pendingRecordIds pending source_mem waits)

omit [Crypto H] [DecidableEq H] in
theorem waits_missRecord_iff (pendingRecordIds : List String) (record : LocalValueRecord H) :
    Waits (missRecord pendingRecordIds record) ↔ Waits record := by
  rw [missRecord]
  split_ifs with missed
  · simp [Waits, Live, missed.2]
  · exact Iff.rfl

omit [Crypto H] [DecidableEq H] in
theorem Settled.afterMissing (settled : db.Settled) (context : PendingBundleContext H) :
    (db.mapRecords (missRecord context.pendingRecordIds) (recordId_missRecord _)).Settled where
  waitsExactly := by
    intro recordId
    refine Iff.trans ?_ (settled.waitsExactly recordId)
    simp only [mem_mapRecords]
    constructor
    · rintro ⟨_, ⟨source, source_mem, rfl⟩, id_eq, waits⟩
      rw [recordId_missRecord] at id_eq
      exact ⟨source, source_mem, id_eq, (waits_missRecord_iff _ _).mp waits⟩
    · rintro ⟨source, source_mem, id_eq, waits⟩
      refine ⟨_, ⟨source, source_mem, rfl⟩, ?_, (waits_missRecord_iff _ _).mpr waits⟩
      rwa [recordId_missRecord]
  single := settled.single

omit [Crypto H] [DecidableEq H] in
theorem Settled.withRecord (settled : db.Settled) {record : LocalValueRecord H}
    (fresh : record.recordId ∉ db.records.map LocalValueRecord.recordId)
    (spendable : record.localStatus = .verifiedSpendable) :
    (db.withRecord record fresh).Settled where
  waitsExactly := by
    intro recordId
    refine Iff.trans ?_ (settled.waitsExactly recordId)
    simp only [LocalWalletDB.withRecord, mem_records_withRecords, List.mem_append,
      List.mem_singleton]
    constructor
    · rintro ⟨other, earlier | rfl, id_eq, waits⟩
      · exact ⟨other, earlier, id_eq, waits⟩
      · exact absurd spendable waits.1
    · rintro ⟨other, member, id_eq, waits⟩
      exact ⟨other, .inl member, id_eq, waits⟩
  single := settled.single

/-! ## Stops behind the copies -/

/-- The database with other copies of sidecars and receipts. -/
def withCopies (db : LocalWalletDB H) (sidecars : OrderedDict H BundleSidecar)
    (receipts : OrderedDict ℕ (BundleRef H × Receipt H)) : LocalWalletDB H :=
  { db with
    bundleSidecars := sidecars
    receipts := receipts }

theorem plan_withCopies (call : WalletCall H) (sidecars : OrderedDict H BundleSidecar)
    (receipts : OrderedDict ℕ (BundleRef H × Receipt H)) :
    (db.withCopies sidecars receipts).plan call = db.plan call := by
  cases call <;> rfl

theorem stop_of_ok {call : WalletCall H} {transactions : List (Transaction H)}
    (planned : db.plan call = .ok ((), transactions)) (count : ℕ) :
    db.stop call count = (db.commitAll (transactions.take count)).2 := by
  rw [stop, planned]

theorem stop_zero (db : LocalWalletDB H) (call : WalletCall H) : db.stop call 0 = db := by
  rw [stop]
  split <;> rfl

theorem stop_of_error {call : WalletCall H} {message : String}
    (raised : db.plan call = .error message) (count : ℕ) : db.stop call count = db := by
  rw [stop, raised]

/-- A stop that left only copies behind, which the repeated call overwrites. -/
structure Repeatable (db : LocalWalletDB H) (call : WalletCall H) (after : LocalWalletDB H) :
    Prop where
  copies : ∃ sidecars receipts, after = db.withCopies sidecars receipts
  repeated : after.perform call = db.perform call

theorem repeatable_self (db : LocalWalletDB H) (call : WalletCall H) : Repeatable db call db :=
  ⟨⟨db.bundleSidecars, db.receipts, rfl⟩, rfl⟩

theorem repeatable_of_commitAll {call : WalletCall H} {transactions : List (Transaction H)}
    (planned : db.plan call = .ok ((), transactions)) {sidecars : OrderedDict H BundleSidecar}
    {receipts : OrderedDict ℕ (BundleRef H × Receipt H)}
    (same : (db.withCopies sidecars receipts).commitAll transactions =
      db.commitAll transactions) : Repeatable db call (db.withCopies sidecars receipts) := by
  refine ⟨⟨sidecars, receipts, rfl⟩, ?_⟩
  have again := (plan_withCopies call sidecars receipts).trans planned
  rw [perform_of_ok again, perform_of_ok planned, same]

theorem repeatable_first {call : WalletCall H} {transaction : Transaction H}
    {rest : List (Transaction H)} (planned : db.plan call = .ok ((), transaction :: rest))
    {sidecars : OrderedDict H BundleSidecar} {receipts : OrderedDict ℕ (BundleRef H × Receipt H)}
    (first : db.commit transaction = .ok (db.withCopies sidecars receipts))
    (again : (db.withCopies sidecars receipts).commit transaction =
      .ok (db.withCopies sidecars receipts)) {count : ℕ} (early : count ≤ 1) :
    Repeatable db call (db.stop call count) := by
  rcases Nat.le_one_iff_eq_zero_or_eq_one.mp early with rfl | rfl
  · rw [stop_zero]
    exact repeatable_self db call
  · rw [stop_of_ok planned, List.take_succ_cons, List.take_zero, commitAll_cons first]
    exact repeatable_of_commitAll planned
      ((commitAll_cons again).trans (commitAll_cons first).symm)

omit [Crypto H] [DecidableEq H] in
theorem RefUnused.after_set {receipt : Receipt H} {context : PendingBundleContext H}
    (unused : db.RefUnused receipt context) :
    (db.withCopies db.bundleSidecars (db.receipts.set receipt.seq
      (receiptRef receipt context.bundleHash, receipt))).RefUnused receipt context := by
  rintro ⟨seq, stored⟩ member ref_eq
  have found := (OrderedDict.get?_eq_some_iff _ _ _).mpr member
  rw [withCopies, OrderedDict.get?_set] at found
  split_ifs at found with seq_eq
  · exact seq_eq.symm
  · exact unused (seq, stored) ((OrderedDict.get?_eq_some_iff _ _ _).mp found) ref_eq

theorem commit_saveSidecar_again (db : LocalWalletDB H) (sidecar : BundleSidecar) :
    (db.withCopies (db.bundleSidecars.set (computeBundleHash sidecar) sidecar) db.receipts).commit
        (.saveSidecar sidecar) =
      .ok (db.withCopies (db.bundleSidecars.set (computeBundleHash sidecar) sidecar)
        db.receipts) := by
  rw [commit]
  simp only [withCopies, OrderedDict.set_set]

theorem commit_saveReceipt_again {receipt : Receipt H} {context : PendingBundleContext H}
    (unused : db.RefUnused receipt context) :
    (db.withCopies db.bundleSidecars (db.receipts.set receipt.seq
        (receiptRef receipt context.bundleHash, receipt))).commit
          (.saveReceipt receipt context.bundleHash) =
      .ok (db.withCopies db.bundleSidecars (db.receipts.set receipt.seq
        (receiptRef receipt context.bundleHash, receipt))) := by
  rw [commit_saveReceipt unused.after_set]
  simp only [withCopies, OrderedDict.set_set]

theorem commitAll_saveSidecars_nil (db : LocalWalletDB H) (sidecars : List BundleSidecar) :
    (db.commitAll (sidecars.map Transaction.saveSidecar)).2 = db.withSidecars sidecars := by
  have committed := commitAll_saveSidecars db sidecars []
  rw [List.append_nil] at committed
  rw [committed]
  rfl

theorem withSidecars_take (db : LocalWalletDB H) (sidecars : List BundleSidecar) (count : ℕ) :
    (db.withSidecars (sidecars.take count)).withSidecars sidecars = db.withSidecars sidecars := by
  have rewritten := db.bundleSidecars.setAll_take_setAll
    (sidecars.map fun sidecar => (computeBundleHash sidecar, sidecar)) count
  simp only [OrderedDict.setAll, ← List.map_take, List.foldl_map] at rewritten
  rw [withSidecars, withSidecars, rewritten]
  rfl

/-- A process that stops behind the copies leaves a database where the call can be repeated. -/
theorem repeatable_stop {call : WalletCall H} {count : ℕ} (early : count ≤ call.copies) :
    Repeatable db call (db.stop call count) := by
  cases call with
  | buildBundle call =>
      cases planned : db.buildBundle call with
      | error message =>
          rw [stop_of_error (by rw [plan, planned]; rfl)]
          exact repeatable_self db _
      | ok result =>
          obtain ⟨⟨submission, context⟩, transactions⟩ := result
          obtain ⟨marked, _, _, rfl⟩ := buildBundle_built planned
          exact repeatable_first (by rw [plan, planned]; rfl) rfl
            (commit_saveSidecar_again db context.sidecar) early
  | onReceiptConfirmed receipt =>
      cases planned : db.onReceiptConfirmed receipt with
      | error message =>
          rw [stop_of_error (by rw [plan, planned]; rfl)]
          exact repeatable_self db _
      | ok result =>
          obtain ⟨unit, transactions⟩ := result
          obtain ⟨context, _, _, rfl⟩ := onReceiptConfirmed_eq_ok.mp planned
          by_cases unused : db.RefUnused receipt context
          · exact repeatable_first (by rw [plan, planned]; rfl) (commit_saveReceipt unused)
              (commit_saveReceipt_again unused) early
          · have stopped : db.stop (.onReceiptConfirmed receipt) count = db := by
              rw [stop_of_ok (by rw [plan, planned]; rfl)]
              cases count with
              | zero => rfl
              | succ count =>
                  exact congrArg Prod.snd (commitAll_cons_error (commit_saveReceipt_of_used unused))
            rw [stopped]
            exact repeatable_self db _
  | receiveTransfer package context recordId =>
      cases planned : db.receiveTransfer package context recordId with
      | error message =>
          rw [stop_of_error (by rw [plan, planned]; rfl)]
          exact repeatable_self db _
      | ok result =>
          obtain ⟨record, transactions⟩ := result
          obtain ⟨newest, _, rfl, rfl⟩ := receiveTransfer_eq_ok.mp planned
          have stopped : db.stop (.receiveTransfer package context recordId) count =
              db.withSidecars (package.witnessV2.sidecars.take count) := by
            rw [stop_of_ok (by rw [plan, planned]; rfl), receiveTransactions,
              List.take_append_of_le_length (by simpa [WalletCall.copies] using early),
              ← List.map_take, commitAll_saveSidecars_nil]
          rw [stopped]
          apply repeatable_of_commitAll (by rw [plan, planned]; rfl)
          rw [receiveTransactions, commitAll_saveSidecars, commitAll_saveSidecars]
          exact congrArg (fun saved : LocalWalletDB H => saved.commitAll _)
            (withSidecars_take db package.witnessV2.sidecars count)
  | addGenesisValue value recordId =>
      rw [Nat.le_zero.mp early, stop_zero]
      exact repeatable_self db _
  | markReceiptMissing seq =>
      rw [Nat.le_zero.mp early, stop_zero]
      exact repeatable_self db _
  | rollbackPendingBundle seq =>
      rw [Nat.le_zero.mp early, stop_zero]
      exact repeatable_self db _
  | observeCanonicalHeader header =>
      rw [Nat.le_zero.mp early, stop_zero]
      exact repeatable_self db _

/-! ## Complete calls -/

omit [DecidableEq H] in
theorem Stores.notMem {package : TransferPackage H} {context : ValidationContext H}
    {recordId : String} {newest : ConfirmedBundleUnit H} [DecidableEq H]
    (stores : db.Stores package context recordId newest) :
    db.receivedRecord package recordId newest ∉ db.records :=
  fun member => stores.fresh (List.mem_map_of_mem (f := LocalValueRecord.recordId) member)

theorem consistent_of_tables {call : WalletCall H} {after : LocalWalletDB H}
    (waitsExactly : after.WaitsExactly) (units_eq : after.confirmedUnits = db.confirmedUnits)
    (accepted_eq : after.acceptedTransferPackages = db.acceptedTransferPackages)
    (unstored : ∀ package context recordId newest,
      call = .receiveTransfer package context recordId →
        db.Stores package context recordId newest →
        db.receivedRecord package recordId newest ∉ after.records) :
    Consistent db call after where
  waitsExactly := waitsExactly
  applied := fun unit member => .inl (units_eq ▸ member)
  accepted := by
    intro packageHash
    rw [accepted_eq]
    refine ⟨Or.inl, fun held => held.resolve_right ?_⟩
    rintro ⟨package, context, recordId, newest, call_eq, _, stores, stored⟩
    exact unstored package context recordId newest call_eq stores stored

theorem Settled.consistent_self (settled : db.Settled) (call : WalletCall H) :
    Consistent db call db :=
  consistent_of_tables settled.waitsExactly rfl rfl fun _ _ _ _ _ stores => stores.notMem

theorem Settled.consistent_afterReceipt (settled : db.Settled) {receipt : Receipt H}
    {context : PendingBundleContext H} (pending : db.getPendingBundle receipt.seq = some context) :
    Consistent db (.onReceiptConfirmed receipt) (db.afterReceipt receipt context) where
  waitsExactly := (settled.afterReceipt pending).waitsExactly
  applied := by
    intro unit member
    obtain ⟨ref, found⟩ := (OrderedDict.mem_values_iff _ _).mp member
    have found : (db.confirmedUnits.set (confirmedRef (confirmedUnit receipt context))
        (confirmedUnit receipt context)).get? ref = some unit := found
    rw [OrderedDict.get?_set] at found
    split_ifs at found with ref_eq
    · cases found
      exact .inr ⟨context, pending, settled.single.get?_erase pending _,
        List.perm_insertionSort _ _⟩
    · exact .inl ((OrderedDict.mem_values_iff _ _).mpr ⟨ref, found⟩)
  accepted := fun packageHash => ⟨Or.inl, fun held => held.resolve_right (by simp)⟩

theorem Settled.consistent_afterReceiving (settled : db.Settled) {package : TransferPackage H}
    {context : ValidationContext H} {recordId : String} {newest : ConfirmedBundleUnit H}
    (stores : db.Stores package context recordId newest) :
    Consistent db (.receiveTransfer package context recordId)
      (db.afterReceiving package (db.receivedRecord package recordId newest) stores.fresh) where
  waitsExactly := (settled.withRecord stores.fresh rfl).waitsExactly
  applied := fun _ member => .inl member
  accepted := by
    intro packageHash
    refine List.mem_cons.trans (or_comm.trans (or_congr_right ?_))
    constructor
    · rintro rfl
      exact ⟨package, context, recordId, newest, rfl, rfl, stores,
        (List.perm_insertionSort _ _).mem_iff.mpr List.mem_concat_self⟩
    · rintro ⟨_, _, _, _, call_eq, rfl, _⟩
      cases call_eq
      rfl

/-- The record ids that a call generates are fresh. -/
def FreshCall (db : LocalWalletDB H) : WalletCall H → Prop
  | .buildBundle call => db.FreshIds call.recordIds
  | _ => True

/-- A complete call keeps the wallet settled and leaves nothing half done. -/
theorem Settled.perform (settled : db.Settled) {call : WalletCall H} (fresh : db.FreshCall call) :
    (db.perform call).Settled ∧ Consistent db call (db.perform call) := by
  have unchanged : ∀ {call}, db.perform call = db →
      (db.perform call).Settled ∧ Consistent db call (db.perform call) := by
    intro call same
    rw [same]
    exact ⟨settled, settled.consistent_self call⟩
  cases call with
  | addGenesisValue value recordId =>
      by_cases taken : recordId ∈ db.records.map LocalValueRecord.recordId
      · exact unchanged (perform_addGenesisValue_of_taken taken)
      · rw [perform_addGenesisValue taken]
        have stored : (db.withRecord (db.genesisRecord value recordId) taken).Settled :=
          settled.withRecord taken rfl
        exact ⟨stored, consistent_of_tables stored.waitsExactly rfl rfl (by nofun)⟩
  | receiveTransfer package context recordId =>
      obtain ⟨newest, stores⟩ | ⟨sidecars, next_eq⟩ :=
        db.perform_receiveTransfer package context recordId
      · rw [stores.perform_eq]
        have stored : (db.withRecord (db.receivedRecord package recordId newest)
            stores.fresh).Settled := settled.withRecord stores.fresh rfl
        exact ⟨⟨stored.waitsExactly, stored.single⟩, settled.consistent_afterReceiving stores⟩
      · rw [next_eq]
        exact ⟨⟨settled.waitsExactly, settled.single⟩, consistent_of_tables settled.waitsExactly
          rfl rfl fun _ _ _ _ _ stores => stores.notMem⟩
  | buildBundle call =>
      obtain same | ⟨context, marked, nodup, built, next_eq⟩ := perform_buildBundle call fresh
      · exact unchanged same
      · rw [next_eq]
        have stored := settled.afterBundle built nodup
        exact ⟨stored, consistent_of_tables stored.waitsExactly rfl rfl (by nofun)⟩
  | onReceiptConfirmed receipt =>
      obtain same | ⟨context, checked, _, next_eq⟩ := db.perform_onReceiptConfirmed receipt
      · exact unchanged same
      · rw [next_eq]
        exact ⟨settled.afterReceipt checked.pending,
          settled.consistent_afterReceipt checked.pending⟩
  | markReceiptMissing seq =>
      cases found : db.getPendingBundle seq with
      | none => exact unchanged (perform_markReceiptMissing_of_none found)
      | some context =>
          rw [perform_markReceiptMissing found]
          have stored := settled.afterMissing context
          exact ⟨stored, consistent_of_tables stored.waitsExactly rfl rfl (by nofun)⟩
  | rollbackPendingBundle seq =>
      cases found : db.getPendingBundle seq with
      | none => exact unchanged (perform_rollbackPendingBundle_of_none found)
      | some context =>
          rw [(perform_rollbackPendingBundle found).1]
          have stored := settled.afterRollback found
          exact ⟨stored, consistent_of_tables stored.waitsExactly rfl rfl (by nofun)⟩
  | observeCanonicalHeader header =>
      exact ⟨⟨settled.waitsExactly, settled.single⟩,
        consistent_of_tables settled.waitsExactly rfl rfl (by nofun)⟩

/-! ## Runs with stops -/

/-- The condition on one step of a run: a process stops behind the copies only, and the record ids
that a complete call generates are fresh. -/
def SafeStep (db : LocalWalletDB H) : WalletStep H → Prop
  | .completes call => db.FreshCall call
  | .stops call count => count ≤ call.copies

theorem Repeatable.settled {call : WalletCall H} {after : LocalWalletDB H}
    (repeatable : Repeatable db call after) (settled : db.Settled) :
    after.Settled ∧ Consistent db call after := by
  obtain ⟨sidecars, receipts, rfl⟩ := repeatable.copies
  exact ⟨⟨settled.waitsExactly, settled.single⟩, consistent_of_tables settled.waitsExactly
    rfl rfl fun _ _ _ _ _ stores => stores.notMem⟩

theorem Settled.advance (settled : db.Settled) {step : WalletStep H} (safe : db.SafeStep step) :
    (db.advance step).Settled ∧ Consistent db step.call (db.advance step) := by
  cases step with
  | completes call => exact settled.perform safe
  | stops call count => exact (repeatable_stop safe).settled settled

omit [Crypto H] [DecidableEq H] in
theorem settled_new (address : Address) (genesisBlockHash : H) :
    (LocalWalletDB.new address genesisBlockHash).Settled :=
  ⟨waitsExactly_of_none (fun _ => rfl) (by nofun), onePending_of_none fun _ => rfl⟩

/-- In a run whose processes stop behind the copies only, every step leaves nothing half done, and
repeating a stopped call gives the state of the complete one. -/
theorem crash_consistent (address : Address) (genesisBlockHash : H) (steps : List (WalletStep H))
    (step : WalletStep H)
    (safe : Along LocalWalletDB.advance SafeStep (.new address genesisBlockHash)
      (steps ++ [step])) :
    Consistent (steps.foldl LocalWalletDB.advance (.new address genesisBlockHash)) step.call
        ((steps ++ [step]).foldl LocalWalletDB.advance (.new address genesisBlockHash)) ∧
      ∀ call count, step = .stops call count →
        ((steps ++ [step]).foldl LocalWalletDB.advance
            (.new address genesisBlockHash)).perform call =
          (steps.foldl LocalWalletDB.advance (.new address genesisBlockHash)).perform call := by
  obtain ⟨steps_safe, step_safe, _⟩ := along_append.mp safe
  have settled := steps_safe.invariant (fun _ _ settled safe => (settled.advance safe).1)
    (settled_new address genesisBlockHash)
  rw [List.foldl_append, List.foldl_cons, List.foldl_nil]
  refine ⟨(settled.advance step_safe).2, ?_⟩
  rintro call count rfl
  exact (repeatable_stop step_safe).repeated

end Crypto

section Examples

open SymbolicDigest

/-- Alice's process stops once the sidecar of her bundle is saved, and she builds it again. -/
theorem crash_consistent_partialCall :
    (List.foldl LocalWalletDB.advance (LocalWalletDB.new alice (filled 0))
        ([.completes (.addGenesisValue ⟨0, 9, by decide⟩ "coin")] ++
          [.stops (.buildBundle partialCall) 1])).perform (.buildBundle partialCall) =
      (List.foldl LocalWalletDB.advance (LocalWalletDB.new alice (filled 0))
        [.completes (.addGenesisValue ⟨0, 9, by decide⟩ "coin")]).perform
          (.buildBundle partialCall) :=
  (crash_consistent alice (filled 0) [.completes (.addGenesisValue ⟨0, 9, by decide⟩ "coin")]
    (.stops (.buildBundle partialCall) 1) ⟨trivial, le_rfl, trivial⟩).2 _ _ rfl

/-- When it stops once the pending bundle is saved, no record waits for the bundle, and it cannot be
built again. -/
theorem stoppedBundle_inconsistent :
    ¬ (fundedWallet.stop (.buildBundle partialCall) 2).WaitsExactly ∧
      (fundedWallet.stop (.buildBundle partialCall) 2).perform (.buildBundle partialCall) ≠
        fundedWallet.perform (.buildBundle partialCall) := by
  constructor
  · intro exactly
    have reserved : (fundedWallet.stop (.buildBundle partialCall) 2).Reserved "r" :=
      ⟨1, _, rfl, by decide⟩
    obtain ⟨record, member, id_eq, _⟩ := (exactly "r").mpr reserved
    obtain rfl := List.mem_singleton.mp member
    exact absurd id_eq (by decide)
  · intro same
    have length_eq := congrArg (fun db : LocalWalletDB SymbolicDigest => db.records.length) same
    exact absurd length_eq (by decide)

end Examples

end LocalWalletDB

end EZChain
