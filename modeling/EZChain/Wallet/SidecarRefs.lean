import EZChain.Wallet.SenderUnits

/-!
# Sidecar references

The sidecar table counts how many stored histories and pending bundles refer to a bundle.  Replacing
the records counts anew, and a bundle that is referred to without having been saved gets a row with
no sidecar in it.  Collecting the unused rows keeps exactly the sidecars that are referred to, as
long as every unit that the sender applies is one whose sidecar was saved before.
-/

namespace EZChain

open Checks Runs

/-- A row of `bundle_sidecars`; the sidecar column may hold a null. -/
structure SidecarRow where
  /-- The bundle. -/
  sidecar : Option BundleSidecar
  /-- The ranges that it claims. -/
  claimRanges : Option ClaimRangeSet
  /-- The number of records that refer to it. -/
  refCount : ℕ

/-- The wallet's database with the sidecar table as it is stored. -/
structure SidecarStore (H : Type) where
  /-- The other tables. -/
  db : LocalWalletDB H
  /-- The sidecar table, by bundle hash. -/
  rows : OrderedDict H SidecarRow

/-- A row with the claim ranges of its sidecar. -/
def SidecarRow.of (sidecar : Option BundleSidecar) (refCount : ℕ) : SidecarRow where
  sidecar := sidecar
  claimRanges := sidecar.map claimRangeSetFromSidecar
  refCount := refCount

variable {H : Type} [Crypto H] [DecidableEq H]

/-! ## The sidecar table -/

/-- `_collect_bundle_hashes_from_witness`. -/
def WitnessV2.collectBundleHashes (witness : WitnessV2 H) : List H :=
  (witness.sidecars.map computeBundleHash).dedup

namespace LocalWalletDB

/-- The bundle hashes that are counted: one for each history and bundle, one for each pending
bundle. -/
def sidecarRefs (db : LocalWalletDB H) : List H :=
  (db.records.flatMap fun record => record.witnessV2.collectBundleHashes) ++
    db.pendingBundles.values.map PendingBundleContext.bundleHash

/-- `counts` in `_recompute_sidecar_ref_counts_locked`. -/
def sidecarRefCounts (db : LocalWalletDB H) : OrderedDict H ℕ :=
  db.sidecarRefs.foldl (fun counts bundleHash =>
    counts.set bundleHash ((counts.get? bundleHash).getD 0 + 1)) ∅

end LocalWalletDB

/-- `get_sidecar`. -/
def getSidecar (rows : OrderedDict H SidecarRow) (bundleHash : H) : Option BundleSidecar :=
  (rows.get? bundleHash).bind SidecarRow.sidecar

/-- `save_sidecar`. -/
def saveSidecar (rows : OrderedDict H SidecarRow) (sidecar : BundleSidecar) :
    OrderedDict H SidecarRow :=
  let bundleHash := computeBundleHash sidecar
  rows.set bundleHash
    (.of (some sidecar) (((rows.get? bundleHash).map SidecarRow.refCount).getD 0))

/-- `_recompute_sidecar_ref_counts_locked`. -/
def recomputeSidecarRefCounts (rows : OrderedDict H SidecarRow) (db : LocalWalletDB H) :
    OrderedDict H SidecarRow :=
  db.sidecarRefCounts.entries.foldl (fun rows entry =>
      rows.set entry.1 (.of (getSidecar rows entry.1) entry.2))
    (rows.mapValues fun row => { row with refCount := 0 })

/-- What a transaction writes to the sidecar table; the database is the one after it. -/
def writeRows (rows : OrderedDict H SidecarRow) (next : LocalWalletDB H) :
    Transaction H → OrderedDict H SidecarRow
  | .saveSidecar sidecar => saveSidecar rows sidecar
  | .replaceValueRecords _ => recomputeSidecarRefCounts rows next
  | .savePendingBundle _ | .deletePendingBundle _ | .saveReceipt _ _ | .saveConfirmedUnit _
  | .saveAcceptedTransferPackage _ | .saveCanonicalHeader _ => rows

namespace SidecarStore

/-- Commit transactions in order; the ones before a failing one stay. -/
def commitAll (store : SidecarStore H) : List (Transaction H) → SidecarStore H
  | [] => store
  | transaction :: rest =>
      match store.db.commit transaction with
      | .error _ => store
      | .ok next => commitAll ⟨next, writeRows store.rows next transaction⟩ rest

/-- `gc_unused_sidecars`. -/
def gcUnusedSidecars (store : SidecarStore H) : SidecarStore H :=
  let rows := recomputeSidecarRefCounts store.rows store.db
  { store with
    rows := rows.filterKeys fun bundleHash =>
      0 < ((rows.get? bundleHash).map SidecarRow.refCount).getD 0 }

end SidecarStore

/-- Order of the stored checkpoints: the ends of the value, then the height. -/
def Checkpoint.le {H : Type} (left right : Checkpoint H) : Prop :=
  left.valueBegin < right.valueBegin ∨
    left.valueBegin = right.valueBegin ∧
      (left.valueEnd < right.valueEnd ∨
        left.valueEnd = right.valueEnd ∧ left.checkpointHeight ≤ right.checkpointHeight)

instance {H : Type} : DecidableRel (Checkpoint.le (H := H)) :=
  fun _ _ => inferInstanceAs (Decidable (_ ∨ _))

/-- Two checkpoints have the same key in the checkpoint table. -/
def Checkpoint.SameKey {H : Type} (left right : Checkpoint H) : Prop :=
  left.ownerAddr = right.ownerAddr ∧ left.valueBegin = right.valueBegin ∧
    left.valueEnd = right.valueEnd ∧ left.checkpointBlockHash = right.checkpointBlockHash ∧
      left.checkpointBundleHash = right.checkpointBundleHash

instance {H : Type} [DecidableEq H] : DecidableRel (Checkpoint.SameKey (H := H)) :=
  fun _ _ => inferInstanceAs (Decidable (_ ∧ _))

namespace LocalWalletDB

/-- `create_exact_checkpoint`. -/
def createExactCheckpoint (db : LocalWalletDB H) (recordId : String) :
    Except String (LocalWalletDB H) := do
  let record ← demand (db.records.find? fun item => item.recordId = recordId) "StopIteration"
  let latest ← demand record.witnessV2.confirmedBundleChain.head?
    "checkpoint requires at least one confirmed unit"
  let checkpoint : Checkpoint H :=
    { valueBegin := record.value.valueBegin
      valueEnd := record.value.valueEnd
      ownerAddr := db.address
      checkpointHeight := latest.receipt.headerLite.height
      checkpointBlockHash := latest.receipt.headerLite.blockHash
      checkpointBundleHash := computeBundleHash latest.bundleSidecar
      begin_le_end := record.value.begin_le_end }
  pure { db with
    checkpoints := ((db.checkpoints.filter fun other => ¬ other.SameKey checkpoint) ++
      [checkpoint]).insertionSort Checkpoint.le }

/-- The transactions that a call commits. -/
def planSender (db : LocalWalletDB H) : SenderCall H → Except String (Planned H Unit)
  | .wallet call => db.plan call
  | .applySenderConfirmedUnit unit outgoingValues recordIds =>
      forget (db.applySenderConfirmedUnit unit outgoingValues recordIds)

end LocalWalletDB

/-- A call of the wallet, the storing of a checkpoint, or a collection of unused sidecars. -/
inductive SidecarCall (H : Type) where
  | sender (call : LocalWalletDB.SenderCall H)
  | createExactCheckpoint (recordId : String)
  | gcUnusedSidecars

namespace SidecarStore

/-- The store after a call, which may raise. -/
def perform (store : SidecarStore H) : SidecarCall H → SidecarStore H
  | .sender call =>
      match store.db.planSender call with
      | .error _ => store
      | .ok planned => store.commitAll planned.2
  | .createExactCheckpoint recordId =>
      match store.db.createExactCheckpoint recordId with
      | .error _ => store
      | .ok next => { store with db := next }
  | .gcUnusedSidecars => store.gcUnusedSidecars

/-- The table holds the sidecar of a bundle. -/
def Saved (store : SidecarStore H) (bundleHash : H) : Prop :=
  getSidecar store.rows bundleHash ≠ none

/-- The sidecars that the records and the pending bundles refer to are found, and no other row is
left. -/
structure ExactlyReferenced (store : SidecarStore H) : Prop where
  records : ∀ record ∈ store.db.records, ∀ sidecar ∈ record.witnessV2.sidecars,
    getSidecar store.rows (computeBundleHash sidecar) = some sidecar
  pending : ∀ context ∈ store.db.pendingBundles.values,
    getSidecar store.rows context.bundleHash = some context.sidecar
  referenced : ∀ bundleHash ∈ store.rows.keys,
    (∃ record ∈ store.db.records, ∃ sidecar ∈ record.witnessV2.sidecars,
        computeBundleHash sidecar = bundleHash) ∨
      ∃ context ∈ store.db.pendingBundles.values, context.bundleHash = bundleHash

/-- A unit that the sender applies to some record is one whose sidecar was saved. -/
def Recorded (store : SidecarStore H) : SidecarCall H → Prop
  | .sender (.applySenderConfirmedUnit unit outgoingValues _) =>
      store.db.Cuttable unit outgoingValues →
        (∃ record ∈ store.db.records, LocalWalletDB.Touched unit record) →
          store.Saved (computeBundleHash unit.bundleSidecar)
  | _ => True

/-- The record ids that a call generates are fresh. -/
def FreshCall (store : SidecarStore H) : SidecarCall H → Prop
  | .sender call => store.db.FreshSenderCall call
  | .createExactCheckpoint _ | .gcUnusedSidecars => True

end SidecarStore

/-! ## Reading the table -/

section Rows

theorem mem_collectBundleHashes {witness : WitnessV2 H} {bundleHash : H} :
    bundleHash ∈ witness.collectBundleHashes ↔
      ∃ sidecar ∈ witness.sidecars, computeBundleHash sidecar = bundleHash := by
  rw [WitnessV2.collectBundleHashes, List.mem_dedup, List.mem_map]

theorem LocalWalletDB.mem_sidecarRefs {db : LocalWalletDB H} {bundleHash : H} :
    bundleHash ∈ db.sidecarRefs ↔
      (∃ record ∈ db.records, ∃ sidecar ∈ record.witnessV2.sidecars,
        computeBundleHash sidecar = bundleHash) ∨
      ∃ context ∈ db.pendingBundles.values, context.bundleHash = bundleHash := by
  simp only [LocalWalletDB.sidecarRefs, List.mem_append, List.mem_flatMap, List.mem_map,
    mem_collectBundleHashes]

variable (rows : OrderedDict H SidecarRow) (bundleHash : H)

omit [Crypto H] in
theorem getSidecar_set (key : H) (row : SidecarRow) :
    getSidecar (rows.set key row) bundleHash =
      if key = bundleHash then row.sidecar else getSidecar rows bundleHash := by
  rw [getSidecar, OrderedDict.get?_set]
  split <;> rfl

theorem getSidecar_saveSidecar (sidecar : BundleSidecar) :
    getSidecar (saveSidecar rows sidecar) bundleHash =
      if computeBundleHash sidecar = bundleHash then some sidecar
      else getSidecar rows bundleHash :=
  getSidecar_set rows bundleHash _ _

theorem getSidecar_recomputeSidecarRefCounts (db : LocalWalletDB H) :
    getSidecar (recomputeSidecarRefCounts rows db) bundleHash = getSidecar rows bundleHash := by
  have cleared : getSidecar (rows.mapValues fun row => { row with refCount := 0 }) bundleHash =
      getSidecar rows bundleHash := by
    rw [getSidecar, OrderedDict.get?_mapValues, getSidecar]
    cases rows.get? bundleHash <;> rfl
  rw [recomputeSidecarRefCounts, ← cleared]
  generalize rows.mapValues (fun row => { row with refCount := 0 }) = current
  induction db.sidecarRefCounts.entries generalizing current with
  | nil => rfl
  | cons entry entries induction =>
      rw [List.foldl_cons, induction, getSidecar_set]
      split
      · next same => rw [same]; rfl
      · rfl

/-- The counter of a bundle. -/
def refCountOf : ℕ := ((rows.get? bundleHash).map SidecarRow.refCount).getD 0

omit [Crypto H] in
theorem refCountOf_set (key : H) (row : SidecarRow) :
    refCountOf (rows.set key row) bundleHash =
      if key = bundleHash then row.refCount else refCountOf rows bundleHash := by
  rw [refCountOf, OrderedDict.get?_set]
  split <;> rfl

omit [Crypto H] in
theorem refCountOf_recount (entries : List (H × ℕ)) (positive : ∀ entry ∈ entries, 0 < entry.2) :
    0 < refCountOf (entries.foldl (fun rows entry =>
        rows.set entry.1 (.of (getSidecar rows entry.1) entry.2)) rows) bundleHash ↔
      bundleHash ∈ entries.map Prod.fst ∨ 0 < refCountOf rows bundleHash := by
  induction entries generalizing rows with
  | nil => simp
  | cons entry entries induction =>
      obtain ⟨entry_positive, rest_positive⟩ := List.forall_mem_cons.mp positive
      rw [List.foldl_cons, induction _ rest_positive, refCountOf_set, List.map_cons,
        List.mem_cons]
      by_cases same : entry.1 = bundleHash
      · simp [same, SidecarRow.of, entry_positive]
      · simp [same, Ne.symm same]

omit [Crypto H] in
/-- Every reference is counted, and with a positive count. -/
theorem sidecarRefCounts_spec (refs : List H) (counts : OrderedDict H ℕ)
    (positive : ∀ entry ∈ counts.entries, 0 < entry.2) :
    let counted := refs.foldl (fun counts bundleHash =>
      counts.set bundleHash ((counts.get? bundleHash).getD 0 + 1)) counts
    (∀ entry ∈ counted.entries, 0 < entry.2) ∧
      ∀ bundleHash, bundleHash ∈ counted.keys ↔ bundleHash ∈ refs ∨ bundleHash ∈ counts.keys := by
  induction refs generalizing counts with
  | nil => simpa using positive
  | cons ref refs induction =>
      have next_positive : ∀ entry ∈ (counts.set ref ((counts.get? ref).getD 0 + 1)).entries,
          0 < entry.2 := by
        rintro ⟨key, count⟩ member
        rw [← OrderedDict.get?_eq_some_iff, OrderedDict.get?_set] at member
        split at member
        · cases member
          exact Nat.succ_pos _
        · exact positive _ ((OrderedDict.get?_eq_some_iff _ _ _).mp member)
      obtain ⟨all_positive, mem_iff⟩ := induction _ next_positive
      refine ⟨all_positive, fun bundleHash => ?_⟩
      rw [List.foldl_cons, mem_iff, OrderedDict.mem_keys_set, List.mem_cons]
      tauto

theorem refCountOf_recomputeSidecarRefCounts (db : LocalWalletDB H) :
    0 < refCountOf (recomputeSidecarRefCounts rows db) bundleHash ↔
      bundleHash ∈ db.sidecarRefs := by
  obtain ⟨positive, mem_iff⟩ := sidecarRefCounts_spec db.sidecarRefs ∅ nofun
  have cleared : refCountOf (rows.mapValues fun row => { row with refCount := 0 }) bundleHash =
      0 := by
    rw [refCountOf, OrderedDict.get?_mapValues]
    cases rows.get? bundleHash <;> rfl
  have counts_positive : ∀ entry ∈ db.sidecarRefCounts.entries, 0 < entry.2 := positive
  have counted : bundleHash ∈ db.sidecarRefCounts.keys ↔ bundleHash ∈ db.sidecarRefs := by
    rw [LocalWalletDB.sidecarRefCounts, mem_iff]
    exact or_iff_left List.not_mem_nil
  rw [recomputeSidecarRefCounts, refCountOf_recount _ _ _ counts_positive, cleared, ← counted]
  exact or_iff_left (lt_irrefl 0)

theorem get?_gcUnusedSidecars (store : SidecarStore H) :
    store.gcUnusedSidecars.rows.get? bundleHash =
      if bundleHash ∈ store.db.sidecarRefs then
        (recomputeSidecarRefCounts store.rows store.db).get? bundleHash
      else none := by
  rw [SidecarStore.gcUnusedSidecars, OrderedDict.get?_filterKeys]
  simp only [decide_eq_true_eq]
  exact if_congr (refCountOf_recomputeSidecarRefCounts store.rows bundleHash store.db) rfl rfl

end Rows

/-! ## What the table must hold -/

/-- The bundle hashes that a transaction starts to refer to. -/
def Transaction.refs : Transaction H → List H
  | .replaceValueRecords records =>
      records.flatMap fun record => record.witnessV2.collectBundleHashes
  | .savePendingBundle context => [context.bundleHash]
  | .saveSidecar _ | .deletePendingBundle _ | .saveReceipt _ _ | .saveConfirmedUnit _
  | .saveAcceptedTransferPackage _ | .saveCanonicalHeader _ => []

/-- A pending bundle is saved under the hash of its sidecar. -/
def Transaction.HashesSidecar : Transaction H → Prop
  | .savePendingBundle context => context.bundleHash = computeBundleHash context.sidecar
  | _ => True

/-- Every bundle that the transactions refer to is available, or one of the transactions before has
saved it. -/
def SuppliedBy (available : H → Prop) : List (Transaction H) → Prop
  | [] => True
  | .saveSidecar sidecar :: rest =>
      SuppliedBy (fun bundleHash => available bundleHash ∨ computeBundleHash sidecar = bundleHash)
        rest
  | transaction :: rest =>
      (∀ bundleHash ∈ transaction.refs, available bundleHash) ∧ transaction.HashesSidecar ∧
        SuppliedBy available rest

namespace SidecarStore

/-- Sidecars are stored under their hashes, pending bundles too, and every bundle that the records
and the pending bundles refer to is saved. -/
structure Supplied (store : SidecarStore H) : Prop where
  keyed : ∀ bundleHash sidecar, getSidecar store.rows bundleHash = some sidecar →
    computeBundleHash sidecar = bundleHash
  pending_hash : ∀ context ∈ store.db.pendingBundles.values,
    context.bundleHash = computeBundleHash context.sidecar
  saved : ∀ bundleHash ∈ store.db.sidecarRefs, store.Saved bundleHash

section Transactions

variable {store : SidecarStore H} {next : LocalWalletDB H} {transaction : Transaction H}

theorem Saved.writeRows {bundleHash : H} (saved : store.Saved bundleHash) :
    getSidecar (writeRows store.rows next transaction) bundleHash ≠ none := by
  cases transaction with
  | saveSidecar sidecar =>
      rw [EZChain.writeRows, getSidecar_saveSidecar]
      split
      · exact Option.some_ne_none sidecar
      · exact saved
  | replaceValueRecords records =>
      rw [EZChain.writeRows, getSidecar_recomputeSidecarRefCounts]
      exact saved
  | _ => exact saved

theorem Supplied.keyed_writeRows (supplied : store.Supplied) {bundleHash : H}
    {sidecar : BundleSidecar}
    (found : getSidecar (writeRows store.rows next transaction) bundleHash = some sidecar) :
    computeBundleHash sidecar = bundleHash := by
  cases transaction with
  | saveSidecar saved =>
      rw [writeRows, getSidecar_saveSidecar] at found
      split at found
      · next same =>
          obtain rfl := Option.some.inj found
          exact same
      · exact supplied.keyed bundleHash sidecar found
  | replaceValueRecords records =>
      rw [writeRows, getSidecar_recomputeSidecarRefCounts] at found
      exact supplied.keyed bundleHash sidecar found
  | _ => exact supplied.keyed bundleHash sidecar found

/-- Records come from replacing the records, pending bundles from saving them. -/
theorem records_and_pending_commit {db : LocalWalletDB H}
    (committed : db.commit transaction = .ok next) :
    (∀ record ∈ next.records, record ∈ db.records ∨
        ∃ records, transaction = .replaceValueRecords records ∧ record ∈ records) ∧
      ∀ context ∈ next.pendingBundles.values, context ∈ db.pendingBundles.values ∨
        transaction = .savePendingBundle context := by
  cases transaction with
  | savePendingBundle context =>
      simp only [LocalWalletDB.commit, bind_eq_ok, require_eq_ok, exists_const, pure_eq_ok]
        at committed
      obtain ⟨_, rfl⟩ := committed
      refine ⟨fun _ member => .inl member, fun other member => ?_⟩
      obtain ⟨seq, found⟩ := (OrderedDict.mem_values_iff _ _).mp member
      rw [OrderedDict.get?_set] at found
      split at found
      · exact .inr (congrArg Transaction.savePendingBundle (Option.some.inj found))
      · exact .inl ((OrderedDict.mem_values_iff _ _).mpr ⟨seq, found⟩)
  | deletePendingBundle seq =>
      obtain rfl := Except.ok.inj committed
      refine ⟨fun _ member => .inl member, fun other member => ?_⟩
      obtain ⟨key, found⟩ := (OrderedDict.mem_values_iff _ _).mp member
      rw [OrderedDict.get?_erase] at found
      split at found
      · cases found
      · exact .inl ((OrderedDict.mem_values_iff _ _).mpr ⟨key, found⟩)
  | replaceValueRecords records =>
      rw [LocalWalletDB.commit] at committed
      split at committed
      · obtain rfl := Except.ok.inj committed
        exact ⟨fun _ member => .inr ⟨records, rfl,
          LocalWalletDB.mem_records_withRecords.mp member⟩, fun _ member => .inl member⟩
      · cases committed
  | saveReceipt receipt bundleHash =>
      simp only [LocalWalletDB.commit, bind_eq_ok, require_eq_ok, exists_const, pure_eq_ok]
        at committed
      obtain ⟨_, rfl⟩ := committed
      exact ⟨fun _ member => .inl member, fun _ member => .inl member⟩
  | _ =>
      obtain rfl := Except.ok.inj committed
      exact ⟨fun _ member => .inl member, fun _ member => .inl member⟩

/-- A transaction that refers to saved bundles only keeps every reference supplied. -/
theorem Supplied.commit (supplied : store.Supplied)
    (committed : store.db.commit transaction = .ok next)
    (refs_saved : ∀ bundleHash ∈ transaction.refs, store.Saved bundleHash)
    (hashes : transaction.HashesSidecar) :
    Supplied ⟨next, EZChain.writeRows store.rows next transaction⟩ := by
  obtain ⟨records_from, pending_from⟩ := records_and_pending_commit committed
  constructor
  · exact fun _ _ found => supplied.keyed_writeRows found
  · intro context member
    rcases pending_from context member with before | rfl
    · exact supplied.pending_hash context before
    · exact hashes
  · intro bundleHash member
    have kept : store.Saved bundleHash →
        Saved ⟨next, EZChain.writeRows store.rows next transaction⟩ bundleHash := Saved.writeRows
    apply kept
    rcases LocalWalletDB.mem_sidecarRefs.mp member with ⟨record, record_mem, referred⟩ |
      ⟨context, context_mem, rfl⟩
    · rcases records_from record record_mem with before | ⟨records, rfl, in_records⟩
      · exact supplied.saved bundleHash (LocalWalletDB.mem_sidecarRefs.mpr
          (.inl ⟨record, before, referred⟩))
      · exact refs_saved bundleHash (List.mem_flatMap.mpr
          ⟨record, in_records, mem_collectBundleHashes.mpr referred⟩)
    · rcases pending_from context context_mem with before | rfl
      · exact supplied.saved _ (LocalWalletDB.mem_sidecarRefs.mpr (.inr ⟨context, before, rfl⟩))
      · exact refs_saved _ (List.mem_singleton_self _)

/-- Transactions that are supplied one after another keep every reference supplied. -/
theorem Supplied.commitAll (supplied : store.Supplied) {transactions : List (Transaction H)}
    {available : H → Prop} (available_saved : ∀ bundleHash, available bundleHash →
      store.Saved bundleHash) (supplies : SuppliedBy available transactions) :
    (store.commitAll transactions).Supplied := by
  induction transactions generalizing store available with
  | nil => exact supplied
  | cons transaction rest induction =>
      rw [SidecarStore.commitAll]
      cases committed : store.db.commit transaction with
      | error message => exact supplied
      | ok next =>
          cases transaction with
          | saveSidecar sidecar =>
              refine induction
                (supplied.commit committed (List.forall_mem_nil _) trivial) ?_ supplies
              rintro bundleHash (before | rfl)
              · exact Saved.writeRows (available_saved bundleHash before)
              · rw [Saved, EZChain.writeRows, getSidecar_saveSidecar, if_pos rfl]
                exact Option.some_ne_none sidecar
          | _ =>
              obtain ⟨refs_available, hashes, rest_supplies⟩ := supplies
              exact induction (supplied.commit committed
                  (fun bundleHash member => available_saved _ (refs_available bundleHash member))
                  hashes)
                (fun bundleHash before => Saved.writeRows (available_saved bundleHash before))
                rest_supplies

end Transactions

end SidecarStore

/-! ## Histories that calls write -/

section Histories

omit [Crypto H] [DecidableEq H]

theorem LocalWalletDB.forget_eq_ok {α : Type} {plan : Except String (Planned H α)}
    {transactions : List (Transaction H)} :
    forget plan = .ok ((), transactions) ↔ ∃ result, plan = .ok (result, transactions) := by
  cases plan with
  | error message => simp [forget, Except.map]
  | ok planned => simp [forget, Except.map, Prod.ext_iff]

@[simp]
theorem WitnessV2.sidecars_cloneForValue (value : ValueRange) (witness : WitnessV2 H) :
    (witness.cloneForValue value).sidecars = witness.sidecars := by
  cases witness <;> rfl

@[simp]
theorem WitnessV2.sidecars_appendConfirmedUnit (value : ValueRange) (unit : ConfirmedBundleUnit H)
    (witness : WitnessV2 H) : (witness.appendConfirmedUnit value unit).sidecars =
      unit.bundleSidecar :: witness.sidecars := by
  cases witness <;> rfl

@[simp]
theorem WitnessV2.sidecars_ownedBy (address : Address) (witness : WitnessV2 H) :
    (witness.ownedBy address).sidecars = witness.sidecars := by
  cases witness <;> rfl

theorem mem_sidecars_confirmRecord {unit : ConfirmedBundleUnit H}
    {pendingRecordIds outgoingRecordIds : List String} {record : LocalValueRecord H}
    {sidecar : BundleSidecar} (member : sidecar ∈ (LocalWalletDB.confirmRecord unit pendingRecordIds
      outgoingRecordIds record).witnessV2.sidecars) :
    sidecar = unit.bundleSidecar ∨ sidecar ∈ record.witnessV2.sidecars := by
  have appended : ∀ status, sidecar ∈
      (LocalWalletDB.appendToRecord unit status record).witnessV2.sidecars →
        sidecar = unit.bundleSidecar ∨ sidecar ∈ record.witnessV2.sidecars := by
    intro status inside
    simpa [LocalWalletDB.appendToRecord] using inside
  rw [LocalWalletDB.confirmRecord] at member
  split_ifs at member
  · exact .inr member
  · exact appended _ member
  · exact appended _ member
  · exact .inr member
  · exact .inr member
  · exact appended _ member

theorem mem_sidecars_appliedInto {address : Address} {unit : ConfirmedBundleUnit H}
    {outgoingValues : List ValueRange} {recordIds : ℕ → String} {record item : LocalValueRecord H}
    {group : List (LocalValueRecord H)}
    (into : LocalWalletDB.AppliedInto address unit outgoingValues recordIds record group)
    (member : item ∈ group) {sidecar : BundleSidecar} :
    sidecar ∈ item.witnessV2.sidecars ↔
      LocalWalletDB.Touched unit record ∧ sidecar = unit.bundleSidecar ∨
        sidecar ∈ record.witnessV2.sidecars := by
  cases into with
  | kept untouched =>
      rw [List.mem_singleton.mp member]
      simp [untouched]
  | whole touched unspent =>
      rw [List.mem_singleton.mp member]
      simp [LocalWalletDB.appendToRecord, touched]
  | split touched segments index partitions =>
      obtain ⟨named, _, rfl⟩ := List.mem_map.mp member
      simp [LocalWalletDB.appliedSegment, touched]

theorem LocalWalletDB.AppliedInto.exists_mem {address : Address} {unit : ConfirmedBundleUnit H}
    {outgoingValues : List ValueRange} {recordIds : ℕ → String} {record : LocalValueRecord H}
    {group : List (LocalValueRecord H)}
    (into : LocalWalletDB.AppliedInto address unit outgoingValues recordIds record group) :
    ∃ item, item ∈ group := by
  have first : record.value.valueBegin ∈ Cover.cover LocalWalletDB.recordAtoms group := by
    rw [into.cover_eq_and_apart.1]
    exact ValueRange.mem_atoms.mpr ⟨le_rfl, record.value.begin_le_end⟩
  obtain ⟨item, member, _⟩ := Cover.mem_cover.mp first
  exact ⟨item, member⟩

/-- A rehydrated history adds the histories of own records only. -/
theorem mem_sidecars_rehydrate [Crypto H] [DecidableEq H] {wallet : WalletAccountV2 H}
    {witness : WitnessV2 H} {sidecar : BundleSidecar}
    (member : sidecar ∈ (wallet.rehydrateLocalCheckpointAnchors witness).sidecars) :
    sidecar ∈ witness.sidecars ∨
      ∃ record ∈ wallet.records, sidecar ∈ record.witnessV2.sidecars := by
  induction witness with
  | genesis value owner chain anchor => exact .inl member
  | checkpoint value owner chain checkpoint =>
      rw [WalletAccountV2.rehydrateLocalCheckpointAnchors] at member
      cases found : wallet.localWitnessForCheckpoint checkpoint with
      | none =>
          rw [found] at member
          exact .inl member
      | some witness =>
          rw [found] at member
          rw [WalletAccountV2.localWitnessForCheckpoint] at found
          split at found
          · cases found
          · obtain ⟨record, record_found, rfl⟩ := Option.map_eq_some_iff.mp found
            exact .inr ⟨record, List.mem_of_find?_eq_some record_found, member⟩
  | prior value owner chain acquireTx priorWitness induction =>
      simp only [WalletAccountV2.rehydrateLocalCheckpointAnchors, WitnessV2.sidecars,
        WitnessV2.allUnits, List.map_append, List.mem_append] at member induction ⊢
      rcases member with newer | older
      · exact .inl (.inl newer)
      · rcases induction older with same | own
        · exact .inl (.inr same)
        · exact .inr own

end Histories

/-! ## Calls -/

section Supplies

variable {available : H → Prop}

theorem suppliedBy_replaceValueRecords {records : List (LocalValueRecord H)}
    {rest : List (Transaction H)} :
    SuppliedBy available (.replaceValueRecords records :: rest) ↔
      (∀ record ∈ records, ∀ sidecar ∈ record.witnessV2.sidecars,
        available (computeBundleHash sidecar)) ∧ SuppliedBy available rest := by
  simp only [SuppliedBy, Transaction.refs, List.mem_flatMap, mem_collectBundleHashes,
    Transaction.HashesSidecar, true_and, forall_exists_index, and_imp]
  refine and_congr_left fun _ => ⟨fun all record member sidecar inside => ?_, ?_⟩
  · exact all _ record member sidecar inside rfl
  · rintro all _ record member sidecar inside rfl
    exact all record member sidecar inside

theorem SuppliedBy.mono {more : H → Prop} {transactions : List (Transaction H)}
    (supplies : SuppliedBy available transactions)
    (weaker : ∀ bundleHash, available bundleHash → more bundleHash) :
    SuppliedBy more transactions := by
  induction transactions generalizing available more with
  | nil => trivial
  | cons transaction rest induction =>
      cases transaction with
      | saveSidecar sidecar =>
          exact induction supplies fun bundleHash => Or.imp_left (weaker bundleHash)
      | _ =>
          obtain ⟨refs_available, hashes, rest_supplies⟩ := supplies
          exact ⟨fun bundleHash member => weaker _ (refs_available bundleHash member), hashes,
            induction rest_supplies weaker⟩

theorem suppliedBy_saveSidecars {sidecars : List BundleSidecar} {rest : List (Transaction H)}
    (supplies : SuppliedBy (fun bundleHash => available bundleHash ∨
      ∃ sidecar ∈ sidecars, computeBundleHash sidecar = bundleHash) rest) :
    SuppliedBy available (sidecars.map Transaction.saveSidecar ++ rest) := by
  induction sidecars generalizing available with
  | nil => exact supplies.mono fun _ => by simp
  | cons sidecar sidecars induction =>
      rw [List.map_cons, List.cons_append, SuppliedBy]
      refine induction (supplies.mono fun bundleHash => ?_)
      simp only [List.exists_mem_cons_iff, or_assoc]
      exact id

end Supplies

namespace SidecarStore

section Calls

variable {store : SidecarStore H}

theorem Supplied.saved_record (supplied : store.Supplied) {record : LocalValueRecord H}
    (member : record ∈ store.db.records) {sidecar : BundleSidecar}
    (inside : sidecar ∈ record.witnessV2.sidecars) : store.Saved (computeBundleHash sidecar) :=
  supplied.saved _ (LocalWalletDB.mem_sidecarRefs.mpr (.inl ⟨record, member, sidecar, inside, rfl⟩))

theorem Supplied.suppliedBy_map (supplied : store.Supplied)
    {change : LocalValueRecord H → LocalValueRecord H}
    (sidecars_eq : ∀ record, (change record).witnessV2.sidecars = record.witnessV2.sidecars) :
    SuppliedBy store.Saved [.replaceValueRecords (store.db.records.map change)] := by
  refine suppliedBy_replaceValueRecords.mpr ⟨fun record member sidecar inside => ?_, trivial⟩
  obtain ⟨source, source_mem, rfl⟩ := List.mem_map.mp member
  rw [sidecars_eq] at inside
  exact supplied.saved_record source_mem inside

theorem Supplied.suppliedBy_buildBundle (supplied : store.Supplied) {call : BundleCall}
    {context : PendingBundleContext H} {marked : List (LocalValueRecord H × Option Bool)}
    (built : store.db.BundleBuilt call context marked) :
    SuppliedBy store.Saved [.saveSidecar context.sidecar, .savePendingBundle context,
      .replaceValueRecords (marked.map Prod.fst)] := by
  have hash_eq : context.bundleHash = computeBundleHash context.sidecar := by
    have sealed := built.sealed
    rw [LocalWalletDB.sealBundle] at sealed
    split_ifs at sealed
    obtain ⟨sidecar_eq, envelope_eq⟩ := Prod.mk.inj (Except.ok.inj sealed)
    rw [built.context_eq, ← envelope_eq, ← sidecar_eq]
    rfl
  refine ⟨?_, hash_eq, suppliedBy_replaceValueRecords.mpr ⟨?_, trivial⟩⟩
  · intro bundleHash member
    rw [List.mem_singleton.mp member, hash_eq]
    exact .inr rfl
  · intro record member sidecar inside
    obtain ⟨⟨_, mark⟩, marked_mem, rfl⟩ := List.mem_map.mp member
    cases mark with
    | none => exact .inl (supplied.saved_record (built.split.kept _ marked_mem) inside)
    | some mark =>
        obtain ⟨source, source_mem, _, _, record_eq⟩ := built.split.reserved _ mark marked_mem
        rw [record_eq] at inside
        have inside : sidecar ∈ source.witnessV2.sidecars := by
          simpa [LocalWalletDB.reservedSegment] using inside
        exact .inl (supplied.saved_record source_mem inside)

/-- Every call of the wallet saves what it refers to. -/
theorem Supplied.suppliedBy_plan (supplied : store.Supplied) {call : WalletCall H}
    {transactions : List (Transaction H)} (planned : store.db.plan call = .ok ((), transactions)) :
    SuppliedBy store.Saved transactions := by
  cases call with
  | addGenesisValue value recordId =>
      rw [LocalWalletDB.addGenesisValue_eq] at planned
      obtain rfl := (Prod.mk.inj (Except.ok.inj planned)).2
      refine suppliedBy_replaceValueRecords.mpr ⟨fun record member sidecar inside => ?_, trivial⟩
      rcases List.mem_append.mp member with old | new
      · exact supplied.saved_record old inside
      · rw [List.mem_singleton.mp new] at inside
        cases inside
  | receiveTransfer package context recordId =>
      obtain ⟨record, received⟩ := LocalWalletDB.forget_eq_ok.mp planned
      obtain ⟨newest, checked, rfl, rfl⟩ := LocalWalletDB.receiveTransfer_eq_ok.mp received
      refine suppliedBy_saveSidecars (suppliedBy_replaceValueRecords.mpr
        ⟨?_, List.forall_mem_nil _, trivial, trivial⟩)
      intro record member sidecar inside
      rcases List.mem_append.mp member with old | new
      · exact .inl (supplied.saved_record old inside)
      · rw [List.mem_singleton.mp new] at inside
        rcases mem_sidecars_rehydrate inside with packaged | ⟨own, own_mem, in_own⟩
        · exact .inr ⟨sidecar, packaged, rfl⟩
        · exact .inl (supplied.saved_record own_mem in_own)
  | buildBundle call =>
      obtain ⟨⟨submission, context⟩, built⟩ := LocalWalletDB.forget_eq_ok.mp planned
      obtain ⟨marked, checked, _, rfl⟩ := LocalWalletDB.buildBundle_built built
      exact supplied.suppliedBy_buildBundle checked
  | onReceiptConfirmed receipt =>
      obtain ⟨unit, confirmed⟩ := LocalWalletDB.forget_eq_ok.mp planned
      obtain ⟨context, checked, rfl, rfl⟩ := LocalWalletDB.onReceiptConfirmed_eq_ok.mp confirmed
      have pending_mem : context ∈ store.db.pendingBundles.values :=
        (OrderedDict.mem_values_iff _ _).mpr ⟨_, checked.pending⟩
      refine ⟨List.forall_mem_nil _, trivial, List.forall_mem_nil _, trivial, List.forall_mem_nil _,
        trivial, ?_⟩
      refine suppliedBy_replaceValueRecords.mpr ⟨fun record member sidecar inside => ?_, trivial⟩
      obtain ⟨source, source_mem, rfl⟩ := List.mem_map.mp member
      rcases mem_sidecars_confirmRecord inside with rfl | old
      · rw [LocalWalletDB.confirmedUnit, ← supplied.pending_hash context pending_mem]
        exact supplied.saved _
          (LocalWalletDB.mem_sidecarRefs.mpr (.inr ⟨context, pending_mem, rfl⟩))
      · exact supplied.saved_record source_mem old
  | markReceiptMissing seq =>
      obtain ⟨context, marked⟩ := LocalWalletDB.forget_eq_ok.mp planned
      obtain ⟨_, rfl⟩ := LocalWalletDB.markReceiptMissing_eq_ok.mp marked
      refine supplied.suppliedBy_map fun record => ?_
      rw [LocalWalletDB.missRecord]
      split_ifs <;> rfl
  | rollbackPendingBundle seq =>
      obtain ⟨context, rolled⟩ := LocalWalletDB.forget_eq_ok.mp planned
      obtain ⟨_, rfl⟩ := LocalWalletDB.rollbackPendingBundle_eq_ok.mp rolled
      refine ⟨List.forall_mem_nil _, trivial, supplied.suppliedBy_map fun record => ?_⟩
      rw [LocalWalletDB.releaseRecord]
      split_ifs <;> rfl
  | observeCanonicalHeader header =>
      obtain rfl := (Prod.mk.inj (Except.ok.inj planned)).2
      exact ⟨List.forall_mem_nil _, trivial, trivial⟩

/-- Applying a unit replaces the records and counts anew, or raises. -/
theorem perform_applySenderConfirmedUnit {unit : ConfirmedBundleUnit H}
    {outgoingValues : List ValueRange} {recordIds : ℕ → String}
    (fresh : store.db.FreshIds recordIds) :
    (store.db.Cuttable unit outgoingValues ∧ ∃ groups nodup,
      List.Forall₂ (LocalWalletDB.AppliedInto store.db.address unit outgoingValues recordIds)
        store.db.records groups ∧
      store.perform (.sender (.applySenderConfirmedUnit unit outgoingValues recordIds)) =
        ⟨store.db.withRecords groups.flatten nodup, recomputeSidecarRefCounts store.rows
          (store.db.withRecords groups.flatten nodup)⟩) ∨
    ¬ store.db.Cuttable unit outgoingValues ∧
      store.perform (.sender (.applySenderConfirmedUnit unit outgoingValues recordIds)) =
        store := by
  have succeeds : (∃ updated, LocalWalletDB.applyConfirmedUnitToRecords store.db.address unit
      outgoingValues [] [] recordIds store.db.records 0 = .ok updated) ↔
        store.db.Cuttable unit outgoingValues :=
    LocalWalletDB.exists_applyConfirmedUnitToRecords_iff store.db.records 0
  rw [perform, LocalWalletDB.planSender, LocalWalletDB.applySenderConfirmedUnit]
  cases applied : LocalWalletDB.applyConfirmedUnitToRecords store.db.address unit outgoingValues []
      [] recordIds store.db.records 0 with
  | error message =>
      refine .inr ⟨fun cuttable => ?_, rfl⟩
      obtain ⟨updated, updated_eq⟩ := succeeds.mpr cuttable
      rw [applied] at updated_eq
      cases updated_eq
  | ok updated =>
      obtain ⟨groups, kept, count, into, rfl, sublist, perm⟩ :=
        LocalWalletDB.applyConfirmedUnitToRecords_groups applied
      have nodup := fresh.nodup_of_perm sublist perm
      refine .inl ⟨succeeds.mp ⟨_, applied⟩, groups, nodup, into, ?_⟩
      have committed : store.db.commit (.replaceValueRecords groups.flatten) =
          .ok (store.db.withRecords groups.flatten nodup) :=
        LocalWalletDB.commit_replaceValueRecords nodup
      change store.commitAll [.replaceValueRecords groups.flatten] = _
      rw [commitAll, committed]
      rfl

theorem getSidecar_gcUnusedSidecars (bundleHash : H) :
    getSidecar store.gcUnusedSidecars.rows bundleHash =
      if bundleHash ∈ store.db.sidecarRefs then getSidecar store.rows bundleHash else none := by
  rw [getSidecar, get?_gcUnusedSidecars]
  split
  · exact getSidecar_recomputeSidecarRefCounts store.rows bundleHash store.db
  · rfl

/-- The sidecars of records and of pending bundles are found by their hashes, and collecting drops
the others. -/
theorem Supplied.exactlyReferenced (supplied : store.Supplied) (ideal : IdealHash H) :
    store.gcUnusedSidecars.ExactlyReferenced := by
  have found : ∀ sidecar, computeBundleHash sidecar ∈ store.db.sidecarRefs →
      getSidecar store.gcUnusedSidecars.rows (computeBundleHash sidecar) = some sidecar := by
    intro sidecar referred
    rw [getSidecar_gcUnusedSidecars, if_pos referred]
    obtain ⟨stored, stored_eq⟩ := Option.ne_none_iff_exists'.mp (supplied.saved _ referred)
    have hash_eq := supplied.keyed _ _ stored_eq
    rw [stored_eq, computeBundleHash_injective ideal hash_eq]
  constructor
  · intro record member sidecar inside
    exact found sidecar (LocalWalletDB.mem_sidecarRefs.mpr
      (.inl ⟨record, member, sidecar, inside, rfl⟩))
  · intro context member
    have referred := LocalWalletDB.mem_sidecarRefs.mpr (.inr ⟨context, member, rfl⟩)
    rw [supplied.pending_hash context member] at referred ⊢
    exact found context.sidecar referred
  · intro bundleHash present
    by_contra unreferred
    have unreferred : bundleHash ∉ store.db.sidecarRefs :=
      mt LocalWalletDB.mem_sidecarRefs.mp unreferred
    have absent : store.gcUnusedSidecars.rows.get? bundleHash = none := by
      rw [get?_gcUnusedSidecars, if_neg unreferred]
    exact (OrderedDict.get?_eq_none_iff _ _).mp absent present

theorem Supplied.gcUnusedSidecars (supplied : store.Supplied) :
    store.gcUnusedSidecars.Supplied := by
  refine ⟨fun bundleHash sidecar found => ?_, supplied.pending_hash, fun bundleHash referred => ?_⟩
  · rw [getSidecar_gcUnusedSidecars] at found
    split at found
    · exact supplied.keyed bundleHash sidecar found
    · cases found
  · have referred : bundleHash ∈ store.db.sidecarRefs := referred
    rw [Saved, getSidecar_gcUnusedSidecars, if_pos referred]
    exact supplied.saved bundleHash referred

/-- A call whose unit was recorded keeps every reference supplied. -/
theorem Supplied.perform (supplied : store.Supplied) (call : SidecarCall H)
    (fresh : store.FreshCall call) (recorded : store.Recorded call) :
    (store.perform call).Supplied := by
  cases call with
  | gcUnusedSidecars => exact supplied.gcUnusedSidecars
  | createExactCheckpoint recordId =>
      rw [SidecarStore.perform]
      cases created : store.db.createExactCheckpoint recordId with
      | error message => exact supplied
      | ok next =>
          simp only [LocalWalletDB.createExactCheckpoint, bind_eq_ok, demand_eq_ok, pure_eq_ok]
            at created
          obtain ⟨record, _, latest, _, rfl⟩ := created
          exact ⟨supplied.keyed, supplied.pending_hash, supplied.saved⟩
  | sender call =>
      cases call with
      | wallet call =>
          rw [SidecarStore.perform, LocalWalletDB.planSender]
          cases planned : store.db.plan call with
          | error message => exact supplied
          | ok result =>
              obtain ⟨⟨⟩, transactions⟩ := result
              exact supplied.commitAll (fun _ => id) (supplied.suppliedBy_plan planned)
      | applySenderConfirmedUnit unit outgoingValues recordIds =>
          rcases store.perform_applySenderConfirmedUnit fresh with
            ⟨cuttable, groups, nodup, into, performed⟩ | ⟨_, performed⟩
          · rw [performed]
            refine supplied.commit (LocalWalletDB.commit_replaceValueRecords nodup) ?_ trivial
            intro bundleHash member
            obtain ⟨item, item_mem, referred⟩ := List.mem_flatMap.mp member
            obtain ⟨sidecar, inside, rfl⟩ := mem_collectBundleHashes.mp referred
            obtain ⟨record, record_mem, group, applied, in_group⟩ := Cover.exists_item into item_mem
            rcases (mem_sidecars_appliedInto applied in_group).mp inside with
              ⟨touched, rfl⟩ | old
            · exact recorded cuttable ⟨record, record_mem, touched⟩
            · exact supplied.saved_record record_mem old
          · rw [performed]
            exact supplied

/-- A unit that was not recorded leaves a reference to a sidecar that is not found. -/
theorem recorded_of_exactlyReferenced {call : SidecarCall H} (fresh : store.FreshCall call)
    (exact_refs : (store.perform call).gcUnusedSidecars.ExactlyReferenced) :
    store.Recorded call := by
  cases call with
  | gcUnusedSidecars => trivial
  | createExactCheckpoint recordId => trivial
  | sender call =>
      cases call with
      | wallet call => trivial
      | applySenderConfirmedUnit unit outgoingValues recordIds =>
          rintro cuttable ⟨record, record_mem, touched⟩
          rcases store.perform_applySenderConfirmedUnit fresh with
            ⟨_, groups, nodup, into, performed⟩ | ⟨stuck, _⟩
          · obtain ⟨group, group_mem, applied⟩ := Checks.exists_related into record_mem
            obtain ⟨item, in_group⟩ := applied.exists_mem
            have inside : unit.bundleSidecar ∈ item.witnessV2.sidecars :=
              (mem_sidecars_appliedInto applied in_group).mpr (.inl ⟨touched, rfl⟩)
            have item_mem : item ∈ (store.perform (.sender (.applySenderConfirmedUnit unit
                outgoingValues recordIds))).db.records := by
              rw [performed]
              exact (LocalWalletDB.perm_records_withRecords store.db nodup).mem_iff.mpr
                (List.mem_flatten_of_mem group_mem in_group)
            have found := exact_refs.records item item_mem _ inside
            rw [getSidecar_gcUnusedSidecars] at found
            split at found
            · rw [performed, getSidecar_recomputeSidecarRefCounts] at found
              rw [Saved, found]
              exact Option.some_ne_none _
            · cases found
          · exact absurd cuttable stuck

end Calls

/-- The store of a new wallet. -/
def new (address : Address) (genesisBlockHash : H) : SidecarStore H :=
  ⟨.new address genesisBlockHash, ∅⟩

theorem supplied_new (address : Address) (genesisBlockHash : H) :
    (new address genesisBlockHash).Supplied :=
  ⟨nofun, nofun, nofun⟩

/-- Collecting unused sidecars is exact in all states of a run if and only if every unit that the
sender applied to a record was one whose sidecar had been saved. -/
theorem recorded_iff_exactlyReferenced (ideal : IdealHash H) {address : Address}
    {genesisBlockHash : H} {calls : List (SidecarCall H)}
    (fresh : Along perform FreshCall (new address genesisBlockHash) calls) :
    Along perform Recorded (new address genesisBlockHash) calls ↔
      ∀ earlier, earlier <+: calls →
        (earlier.foldl perform (new address genesisBlockHash)).gcUnusedSidecars.ExactlyReferenced :=
  along_iff_always (fun _ call supplied fresh recorded => supplied.perform call fresh recorded)
    (fun _ supplied => supplied.exactlyReferenced ideal)
    (fun _ _ _ fresh exact_refs => recorded_of_exactlyReferenced fresh exact_refs) fresh
    (supplied_new address genesisBlockHash)

section Examples

open SymbolicDigest

/-- Alice's store with one genesis value. -/
def fundedStore : SidecarStore SymbolicDigest :=
  (new alice (filled 0)).perform (.sender (.wallet (.addGenesisValue coin "coin")))

theorem freshIds_fundedStore : fundedStore.db.FreshIds LocalWalletDB.unaryIds :=
  ⟨LocalWalletDB.freshIds_fundedWallet.injective, LocalWalletDB.freshIds_fundedWallet.unused⟩

/-- A bundle that was built and rolled back leaves no sidecar behind. -/
theorem exactlyReferenced_rolledBack :
    (((fundedStore.perform (.sender (.wallet (.buildBundle LocalWalletDB.partialCall)))).perform
      (.sender (.wallet (.rollbackPendingBundle 1)))).gcUnusedSidecars).ExactlyReferenced := by
  have fresh : Along perform FreshCall (new alice (filled 0))
      [.sender (.wallet (.addGenesisValue coin "coin")),
        .sender (.wallet (.buildBundle LocalWalletDB.partialCall)),
        .sender (.wallet (.rollbackPendingBundle 1))] :=
    ⟨trivial, freshIds_fundedStore, trivial, trivial⟩
  exact (recorded_iff_exactlyReferenced idealHash fresh).mp
    ⟨trivial, trivial, trivial, trivial⟩ _ List.prefix_rfl

/-- The sidecar of a unit that was never saved is not found, although a history refers to it. -/
theorem not_exactlyReferenced_unsaved :
    ¬ ((fundedStore.perform (.sender (.applySenderConfirmedUnit (LocalWalletDB.sentUnit
      LocalWalletDB.middle) [LocalWalletDB.middle] LocalWalletDB.unaryIds))).gcUnusedSidecars
        ).ExactlyReferenced := by
  intro exact_refs
  have recorded : fundedStore.Recorded (.sender (.applySenderConfirmedUnit (LocalWalletDB.sentUnit
      LocalWalletDB.middle) [LocalWalletDB.middle] LocalWalletDB.unaryIds)) :=
    recorded_of_exactlyReferenced freshIds_fundedStore exact_refs
  refine recorded ?_ ⟨_, List.mem_cons_self, ?_⟩ rfl
  · intro record member _
    obtain rfl := List.mem_singleton.mp member
    exact List.pairwise_singleton _ _
  · decide

end Examples

end SidecarStore

end EZChain
