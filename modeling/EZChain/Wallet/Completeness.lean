import EZChain.Transfer.Issued
import EZChain.Wallet.Conservation
import Mathlib.Data.List.Chain

/-!
# Complete histories of wallet records

A confirmed unit is appended to the records that exist at its confirmation.  The history of a
record is complete as long as no record is created behind a unit that is stored already, and the
receipts continue the account's chain.
-/

namespace EZChain

open Checks Runs

namespace LocalWalletDB

variable {H : Type}

/-! ## Units above a height -/

/-- The units above a height, newest first. -/
def unitsAbove (units : List (ConfirmedBundleUnit H)) (height : ℕ) :
    List (ConfirmedBundleUnit H) :=
  (units.filter fun unit => height < unit.height).reverse

theorem mem_unitsAbove {units : List (ConfirmedBundleUnit H)} {height : ℕ}
    {unit : ConfirmedBundleUnit H} :
    unit ∈ unitsAbove units height ↔ unit ∈ units ∧ height < unit.height := by
  simp [unitsAbove]

theorem unitsAbove_eq_nil {units : List (ConfirmedBundleUnit H)} {height : ℕ}
    (below : ∀ unit ∈ units, unit.height ≤ height) : unitsAbove units height = [] := by
  rw [List.eq_nil_iff_forall_not_mem]
  intro unit member
  obtain ⟨stored, above⟩ := mem_unitsAbove.mp member
  have bound := below unit stored
  omega

theorem unitsAbove_concat_of_lt {units : List (ConfirmedBundleUnit H)} {height : ℕ}
    {unit : ConfirmedBundleUnit H} (above : height < unit.height) :
    unitsAbove (units ++ [unit]) height = unit :: unitsAbove units height := by
  simp [unitsAbove, List.filter_append, above]

theorem unitsAbove_concat_of_le {units : List (ConfirmedBundleUnit H)} {height : ℕ}
    {unit : ConfirmedBundleUnit H} (below : unit.height ≤ height) :
    unitsAbove (units ++ [unit]) height = unitsAbove units height := by
  simp [unitsAbove, List.filter_append, below]

/-- Heights ascend. -/
def Ascending (units : List (ConfirmedBundleUnit H)) : Prop :=
  units.Pairwise fun older newer => older.height < newer.height

theorem Ascending.filter_isSuffix {units : List (ConfirmedBundleUnit H)}
    (ascending : Ascending units) (height : ℕ) :
    units.filter (fun unit => height < unit.height) <:+ units := by
  induction units with
  | nil => exact List.suffix_refl _
  | cons unit units induction =>
      obtain ⟨below_rest, rest_ascending⟩ := List.pairwise_cons.mp ascending
      by_cases above : height < unit.height
      · have all_above : (unit :: units).filter (fun unit => height < unit.height) =
            unit :: units := by
          rw [List.filter_eq_self]
          intro other member
          rcases List.mem_cons.mp member with rfl | member
          · exact decide_eq_true above
          · exact decide_eq_true (above.trans (below_rest other member))
        rw [all_above]
      · rw [List.filter_cons_of_neg (by simpa using above)]
        exact (induction rest_ascending).trans (List.suffix_cons unit units)

section Crypto

variable [Crypto H]

/-- The history of a record presents exactly the wallet's confirmed units since the acquisition. -/
structure CompleteFor (db : LocalWalletDB H) (record : LocalValueRecord H) : Prop where
  units : ∀ unit, unit ∈ record.witnessV2.confirmedBundleChain ↔
    unit ∈ db.confirmedUnits.values ∧ record.acquisitionHeight < unit.height
  newestFirst : record.witnessV2.confirmedBundleChain.Pairwise fun newer older =>
    older.height < newer.height
  linked : record.witnessV2.confirmedBundleChain.IsChain fun newer older =>
    newer.receipt.prevRef = some (confirmedRef older)

/-- The stored units are the account's chain from its first unit on. -/
structure UnitsInOrder (db : LocalWalletDB H) : Prop where
  keyed : ∀ entry ∈ db.confirmedUnits.entries, entry.1 = confirmedRef entry.2
  numbered : db.confirmedUnits.values.map (fun unit => unit.receipt.seq) =
    List.range' 1 db.confirmedUnits.values.length
  ascending : Ascending db.confirmedUnits.values
  linked : db.confirmedUnits.values.IsChain fun older newer =>
    newer.receipt.prevRef = some (confirmedRef older)

theorem UnitsInOrder.of_units {db next : LocalWalletDB H} (inOrder : db.UnitsInOrder)
    (units_eq : next.confirmedUnits = db.confirmedUnits) : next.UnitsInOrder := by
  constructor <;> rw [units_eq]
  · exact inOrder.keyed
  · exact inOrder.numbered
  · exact inOrder.ascending
  · exact inOrder.linked

/-- Moreover every live record presents the units above its acquisition, and exactly the records of
the pending bundle may wait. -/
structure KeepsChain (db : LocalWalletDB H) : Prop extends db.UnitsInOrder where
  presented : ∀ record ∈ db.records, Live record → record.witnessV2.confirmedBundleChain =
    unitsAbove db.confirmedUnits.values record.acquisitionHeight
  waiting : ∀ record ∈ db.records, record.localStatus = .pendingBundle →
    ∃ seq context, db.getPendingBundle seq = some context ∧
      record.recordId ∈ context.pendingRecordIds
  reserved : ∀ seq context, db.getPendingBundle seq = some context →
    ∀ record ∈ db.records, record.recordId ∈ context.pendingRecordIds → Live record
  single : db.OnePending

theorem KeepsChain.completeFor {db : LocalWalletDB H} (keeps : db.KeepsChain)
    {record : LocalValueRecord H} (member : record ∈ db.records) (live : Live record) :
    db.CompleteFor record := by
  have chain_eq := keeps.presented record member live
  constructor
  · intro unit
    rw [chain_eq, mem_unitsAbove]
  · rw [chain_eq, unitsAbove, List.pairwise_reverse]
    exact List.Pairwise.filter _ keeps.ascending
  · rw [chain_eq, unitsAbove, List.isChain_reverse]
    exact keeps.linked.suffix (keeps.ascending.filter_isSuffix _)

/-! ## Calls that acquire values -/

variable {db : LocalWalletDB H}

/-- A new record without units keeps the chain when no stored unit is above its acquisition. -/
theorem KeepsChain.withRecord (keeps : db.KeepsChain) {record : LocalValueRecord H}
    (fresh : record.recordId ∉ db.records.map LocalValueRecord.recordId)
    (spendable : record.localStatus = .verifiedSpendable)
    (chain_eq : record.witnessV2.confirmedBundleChain = [])
    (below : ∀ unit ∈ db.confirmedUnits.values, unit.height ≤ record.acquisitionHeight) :
    (db.withRecord record fresh).KeepsChain := by
  have mem_records : ∀ other, other ∈ (db.withRecord record fresh).records ↔
      other ∈ db.records ∨ other = record := by
    intro other
    rw [LocalWalletDB.withRecord, mem_records_withRecords, List.mem_append, List.mem_singleton]
  refine ⟨keeps.of_units rfl, ?_, ?_, ?_, keeps.single⟩
  · intro other member live
    rcases (mem_records other).mp member with earlier | rfl
    · exact keeps.presented other earlier live
    · rw [chain_eq]
      exact (unitsAbove_eq_nil below).symm
  · intro other member waits
    rcases (mem_records other).mp member with earlier | rfl
    · exact keeps.waiting other earlier waits
    · rw [spendable] at waits
      cases waits
  · intro seq context found other member reserved
    rcases (mem_records other).mp member with earlier | rfl
    · exact keeps.reserved seq context found other earlier reserved
    · rw [Live, spendable]
      exact LocalValueStatus.noConfusion

/-! ## Calls on bundles -/

theorem KeepsChain.not_waiting (keeps : db.KeepsChain) (free : db.pendingBundles.keys = [])
    {record : LocalValueRecord H} (member : record ∈ db.records) :
    record.localStatus ≠ .pendingBundle := by
  intro waits
  obtain ⟨seq, context, found, _⟩ := keeps.waiting record member waits
  rw [getPendingBundle_of_free free] at found
  cases found

/-- A change of the records that keeps what the live ones present and the waiting ones wait for. -/
theorem KeepsChain.of_records (keeps : db.KeepsChain) {next : LocalWalletDB H}
    (units_eq : next.confirmedUnits = db.confirmedUnits)
    (presented : ∀ record ∈ next.records, Live record → ∃ source ∈ db.records, Live source ∧
      record.witnessV2.confirmedBundleChain = source.witnessV2.confirmedBundleChain ∧
      record.acquisitionHeight = source.acquisitionHeight)
    (waiting : ∀ record ∈ next.records, record.localStatus = .pendingBundle →
      ∃ seq context, next.getPendingBundle seq = some context ∧
        record.recordId ∈ context.pendingRecordIds)
    (reserved : ∀ seq context, next.getPendingBundle seq = some context →
      ∀ record ∈ next.records, record.recordId ∈ context.pendingRecordIds → Live record)
    (single : next.OnePending) :
    next.KeepsChain := by
  refine ⟨keeps.of_units units_eq, ?_, waiting, reserved, single⟩
  intro record member live
  obtain ⟨source, source_mem, source_live, chain_eq, height_eq⟩ := presented record member live
  rw [chain_eq, height_eq, units_eq]
  exact keeps.presented source source_mem source_live

variable [DecidableEq H]

theorem KeepsChain.afterBundle (keeps : db.KeepsChain) {call : BundleCall}
    {context : PendingBundleContext H} {marked : List (LocalValueRecord H × Option Bool)}
    (built : db.BundleBuilt call context marked)
    (nodup : ((marked.map Prod.fst).map LocalValueRecord.recordId).Nodup) :
    (db.afterBundle context (marked.map Prod.fst) nodup).KeepsChain := by
  refine keeps.of_records rfl ?_ ?_ ?_ (onePending_withPendingBundle built.free context)
  · intro record member live
    obtain ⟨mark, marked_mem⟩ := mem_records_afterBundle.mp member
    cases mark with
    | none => exact ⟨record, built.split.kept record marked_mem, live, rfl, rfl⟩
    | some outgoing =>
        obtain ⟨source, source_mem, spendable, _, record_eq⟩ :=
          built.split.reserved record outgoing marked_mem
        refine ⟨source, source_mem, ?_, ?_, ?_⟩
        · rw [Live, spendable]
          exact LocalValueStatus.noConfusion
        · rw [record_eq]
          exact WitnessV2.confirmedBundleChain_cloneForValue _ _
        · rw [record_eq]
          rfl
  · intro record member waits
    obtain ⟨mark, marked_mem⟩ := mem_records_afterBundle.mp member
    cases mark with
    | none =>
        exact absurd waits (keeps.not_waiting built.free (built.split.kept record marked_mem))
    | some outgoing =>
        refine ⟨context.seq, context,
          (getPendingBundle_withPendingBundle built.free).mpr ⟨rfl, rfl⟩, ?_⟩
        exact built.mem_pendingRecordIds_iff.mpr ⟨record, outgoing, marked_mem, rfl⟩
  · intro seq other found record member reserved
    obtain ⟨_, rfl⟩ := (getPendingBundle_withPendingBundle built.free).mp found
    exact (built.reserves nodup).live member reserved

omit [DecidableEq H] in
/-- Every waiting record is reserved by the pending bundle. -/
theorem KeepsChain.mem_pendingRecordIds (keeps : db.KeepsChain) {seq : ℕ}
    {context : PendingBundleContext H} (pending : db.getPendingBundle seq = some context)
    {record : LocalValueRecord H} (member : record ∈ db.records)
    (waits : record.localStatus = .pendingBundle) : record.recordId ∈ context.pendingRecordIds := by
  obtain ⟨other, otherContext, found, reserved⟩ := keeps.waiting record member waits
  have seq_eq := keeps.single seq other context otherContext pending found
  subst seq_eq
  rw [pending] at found
  cases found
  exact reserved

omit [DecidableEq H] in
theorem KeepsChain.afterRollback (keeps : db.KeepsChain) {seq : ℕ}
    {context : PendingBundleContext H} (pending : db.getPendingBundle seq = some context) :
    (db.afterRollback context seq).KeepsChain := by
  have none_pending : ∀ other, (db.afterRollback context seq).getPendingBundle other = none :=
    keeps.single.get?_erase pending
  refine keeps.of_records rfl ?_ ?_ ?_ (onePending_of_none none_pending)
  · intro record member live
    obtain ⟨source, source_mem, rfl⟩ := mem_mapRecords.mp member
    refine ⟨source, source_mem, ?_, ?_⟩
    · by_cases reserved : source.recordId ∈ context.pendingRecordIds
      · exact keeps.reserved seq context pending source source_mem reserved
      · rwa [releaseRecord, if_neg reserved] at live
    · rw [releaseRecord]
      split_ifs <;> exact ⟨rfl, rfl⟩
  · intro record member waits
    obtain ⟨source, source_mem, rfl⟩ := mem_mapRecords.mp member
    rw [releaseRecord] at waits
    split_ifs at waits with reserved
    exact absurd (keeps.mem_pendingRecordIds pending source_mem waits) reserved
  · intro other _ found
    rw [none_pending] at found
    cases found

omit [DecidableEq H] in
theorem KeepsChain.afterMissing (keeps : db.KeepsChain) {seq : ℕ}
    {context : PendingBundleContext H} (pending : db.getPendingBundle seq = some context) :
    (db.mapRecords (missRecord context.pendingRecordIds) (recordId_missRecord _)).KeepsChain := by
  refine keeps.of_records rfl ?_ ?_ ?_ keeps.single
  · intro record member live
    obtain ⟨source, source_mem, rfl⟩ := mem_mapRecords.mp member
    refine ⟨source, source_mem, ?_, ?_⟩
    · by_cases missed : source.recordId ∈ context.pendingRecordIds ∧
          source.localStatus = .pendingBundle
      · exact keeps.reserved seq context pending source source_mem missed.1
      · rwa [missRecord, if_neg missed] at live
    · rw [missRecord]
      split_ifs <;> exact ⟨rfl, rfl⟩
  · intro record member waits
    obtain ⟨source, source_mem, rfl⟩ := mem_mapRecords.mp member
    rw [missRecord] at waits
    split_ifs at waits with missed
    exact absurd ⟨keeps.mem_pendingRecordIds pending source_mem waits, waits⟩ missed
  · intro other otherContext found record member reserved
    obtain ⟨source, source_mem, rfl⟩ := mem_mapRecords.mp member
    rw [recordId_missRecord] at reserved
    have live := keeps.reserved other otherContext found source source_mem reserved
    rw [missRecord]
    split_ifs with missed
    · exact LocalValueStatus.noConfusion
    · exact live

/-! ## Receipts -/

/-- The receipt continues the account's chain, and it is later than every acquisition of a value
that its bundle reserves. -/
structure Continues (db : LocalWalletDB H) (receipt : Receipt H)
    (context : PendingBundleContext H) : Prop where
  next : receipt.seq = db.confirmedUnits.values.length + 1
  above : ∀ unit ∈ db.confirmedUnits.values, unit.height < receipt.headerLite.height
  acquired : ∀ record ∈ db.records, record.recordId ∈ context.pendingRecordIds →
    record.acquisitionHeight < receipt.headerLite.height

omit [DecidableEq H] in
theorem UnitsInOrder.seq_getLast (inOrder : db.UnitsInOrder) {newest : ConfirmedBundleUnit H}
    (newest_eq : newest ∈ db.confirmedUnits.values.getLast?) :
    newest.receipt.seq = db.confirmedUnits.values.length := by
  obtain ⟨older, values_eq⟩ := List.getLast?_eq_some_iff.mp newest_eq
  have numbered := inOrder.numbered
  rw [values_eq, List.length_append, List.length_singleton, List.range'_1_concat, List.map_append]
    at numbered
  have seq_eq : newest.receipt.seq = 1 + older.length :=
    List.head_eq_of_cons_eq (List.append_inj_right' numbered rfl)
  rw [values_eq, List.length_append, List.length_singleton, seq_eq, Nat.add_comm]

variable {receipt : Receipt H} {context : PendingBundleContext H}

/-- A receipt that continues the chain refers to the newest stored unit. -/
theorem UnitsInOrder.prevRef_eq (inOrder : db.UnitsInOrder)
    (checked : db.ReceiptChecked receipt context) (continues : db.Continues receipt context)
    {newest : ConfirmedBundleUnit H} (newest_eq : newest ∈ db.confirmedUnits.values.getLast?) :
    receipt.prevRef = some (confirmedRef newest) := by
  have newest_mem := List.mem_of_getLast? newest_eq
  have nonempty := List.length_pos_of_mem newest_mem
  have next := continues.next
  have prevRef := checked.prevRef
  rw [checkPrevRef, if_neg (by omega)] at prevRef
  simp only [bind_eq_ok, demand_eq_ok, require_eq_ok] at prevRef
  obtain ⟨previous, found, ref_eq⟩ := prevRef
  have previous_mem := List.mem_of_find?_eq_some found
  have previous_seq : previous.receipt.seq = receipt.seq - 1 := by
    have holds := List.find?_some found
    simp only [Bool.and_eq_true, decide_eq_true_eq] at holds
    exact holds.2
  -- The sequence numbers of the stored units are distinct.
  have distinct : (db.confirmedUnits.values.map fun unit => unit.receipt.seq).Nodup := by
    rw [inOrder.numbered]
    exact List.nodup_range' 1
  have newest_seq := inOrder.seq_getLast newest_eq
  have previous_eq := List.inj_on_of_nodup_map distinct previous_mem newest_mem (by omega)
  rw [← ref_eq, previous_eq]

theorem UnitsInOrder.entries_set (inOrder : db.UnitsInOrder)
    (continues : db.Continues receipt context) :
    (db.afterReceipt receipt context).confirmedUnits.entries = db.confirmedUnits.entries ++
      [(confirmedRef (confirmedUnit receipt context), confirmedUnit receipt context)] := by
  refine db.confirmedUnits.entries_set_of_notMem (fun member => ?_) _
  obtain ⟨entry, entry_mem, key_eq⟩ := List.mem_map.mp member
  have above := continues.above entry.2 (List.mem_map_of_mem entry_mem)
  rw [inOrder.keyed entry entry_mem] at key_eq
  have height_eq : entry.2.height = receipt.headerLite.height := congrArg BundleRef.height key_eq
  omega

theorem UnitsInOrder.values_afterReceipt (inOrder : db.UnitsInOrder)
    (continues : db.Continues receipt context) :
    (db.afterReceipt receipt context).confirmedUnits.values =
      db.confirmedUnits.values ++ [confirmedUnit receipt context] := by
  rw [OrderedDict.values, inOrder.entries_set continues, List.map_append]
  rfl

/-- A receipt that continues the chain keeps the units in order. -/
theorem UnitsInOrder.afterReceipt (inOrder : db.UnitsInOrder)
    (checked : db.ReceiptChecked receipt context) (continues : db.Continues receipt context) :
    (db.afterReceipt receipt context).UnitsInOrder := by
  have values_eq := inOrder.values_afterReceipt continues
  constructor
  case keyed =>
    rw [inOrder.entries_set continues, List.forall_mem_append]
    exact ⟨inOrder.keyed, List.forall_mem_singleton.mpr rfl⟩
  case numbered =>
    rw [values_eq, List.map_append, inOrder.numbered, List.length_append, List.length_singleton,
      List.range'_1_concat, Nat.add_comm 1, ← continues.next]
    rfl
  case ascending =>
    rw [values_eq, Ascending, List.pairwise_append]
    refine ⟨inOrder.ascending, List.pairwise_singleton _ _, fun unit member other other_mem => ?_⟩
    obtain rfl := List.mem_singleton.mp other_mem
    exact continues.above unit member
  case linked =>
    rw [values_eq, List.isChain_append]
    refine ⟨inOrder.linked, .singleton _, fun newest newest_eq other other_eq => ?_⟩
    cases other_eq
    exact inOrder.prevRef_eq checked continues newest_eq

omit [DecidableEq H] in
/-- Every live record learns of the unit when it is above its acquisition. -/
theorem KeepsChain.presented_confirmRecord (keeps : db.KeepsChain)
    (pending : db.getPendingBundle receipt.seq = some context)
    (continues : db.Continues receipt context) {record : LocalValueRecord H}
    (member : record ∈ db.records)
    (live : Live (confirmRecord (confirmedUnit receipt context) context.pendingRecordIds
      context.outgoingRecordIds record)) :
    (confirmRecord (confirmedUnit receipt context) context.pendingRecordIds
        context.outgoingRecordIds record).witnessV2.confirmedBundleChain =
      unitsAbove (db.confirmedUnits.values ++ [confirmedUnit receipt context])
        record.acquisitionHeight := by
  have height_eq : (confirmedUnit receipt context).height = receipt.headerLite.height := rfl
  have record_live : Live record := by
    intro archived
    rw [confirmRecord, if_pos archived] at live
    exact live archived
  have presented := keeps.presented record member record_live
  have appended : record.acquisitionHeight < receipt.headerLite.height → ∀ status,
      (appendToRecord (confirmedUnit receipt context) status
          record).witnessV2.confirmedBundleChain =
        unitsAbove (db.confirmedUnits.values ++ [confirmedUnit receipt context])
          record.acquisitionHeight := by
    intro above status
    rw [unitsAbove_concat_of_lt above, ← presented]
    exact WitnessV2.confirmedBundleChain_appendConfirmedUnit _ _ _
  rw [confirmRecord, if_neg record_live]
  split_ifs with reserved outgoing waits below
  · exact appended (continues.acquired record member reserved) _
  · exact appended (continues.acquired record member reserved) _
  · exact absurd (keeps.mem_pendingRecordIds pending member waits) reserved
  · rw [unitsAbove_concat_of_le (height_eq ▸ below), presented]
  · exact appended (not_le.mp below) _

theorem KeepsChain.afterReceipt (keeps : db.KeepsChain)
    (checked : db.ReceiptChecked receipt context) (continues : db.Continues receipt context) :
    (db.afterReceipt receipt context).KeepsChain := by
  have values_eq := keeps.values_afterReceipt continues
  have none_pending : ∀ other, (db.afterReceipt receipt context).getPendingBundle other = none :=
    keeps.single.get?_erase checked.pending
  constructor
  case toUnitsInOrder => exact keeps.toUnitsInOrder.afterReceipt checked continues
  case presented =>
    intro record member live
    obtain ⟨source, source_mem, rfl⟩ := mem_mapRecords.mp member
    rw [values_eq, acquisitionHeight_confirmRecord]
    exact keeps.presented_confirmRecord checked.pending continues source_mem live
  case waiting =>
    intro record member waits
    obtain ⟨source, source_mem, rfl⟩ := mem_mapRecords.mp member
    exfalso
    rw [confirmRecord] at waits
    split_ifs at waits with archived reserved outgoing source_waits below
    · rw [archived] at waits
      cases waits
    · cases waits
    · cases waits
    · exact reserved (keeps.mem_pendingRecordIds checked.pending source_mem source_waits)
    · exact source_waits waits
    · cases waits
  case reserved =>
    intro other _ found
    rw [none_pending] at found
    cases found
  case single => exact onePending_of_none none_pending

/-! ## Runs -/

/-- The condition on one call of a run: no record is created behind a stored unit, the receipts
continue the account's chain, and the record ids of a bundle are fresh. -/
def KeepsHistory (db : LocalWalletDB H) : WalletCall H → Prop
  | .addGenesisValue _ recordId => recordId ∉ db.records.map LocalValueRecord.recordId →
      ∀ unit ∈ db.confirmedUnits.values, unit.height ≤ 0
  | .receiveTransfer package context recordId => ∀ newest,
      db.Stores package context recordId newest →
        ∀ unit ∈ db.confirmedUnits.values, unit.height ≤ newest.height
  | .buildBundle call => db.FreshIds call.recordIds
  | .onReceiptConfirmed receipt => ∀ context, db.ReceiptChecked receipt context →
      db.RefUnused receipt context → db.Continues receipt context
  | .markReceiptMissing _ | .rollbackPendingBundle _ | .observeCanonicalHeader _ => True

/-- One call keeps the chain, whether it raises or not. -/
theorem KeepsChain.perform (keeps : db.KeepsChain) {call : WalletCall H}
    (met : db.KeepsHistory call) : (db.perform call).KeepsChain := by
  cases call with
  | addGenesisValue value recordId =>
      by_cases fresh : recordId ∈ db.records.map LocalValueRecord.recordId
      · rwa [perform_addGenesisValue_of_taken fresh]
      · rw [perform_addGenesisValue fresh]
        exact keeps.withRecord fresh rfl rfl (met fresh)
  | receiveTransfer package context recordId =>
      obtain ⟨newest, stores⟩ | ⟨sidecars, next_eq⟩ :=
        db.perform_receiveTransfer package context recordId
      · rw [stores.perform_eq]
        have stored : (db.withRecord (db.receivedRecord package recordId newest)
            stores.fresh).KeepsChain := keeps.withRecord stores.fresh rfl rfl (met newest stores)
        exact ⟨stored.of_units rfl, stored.presented, stored.waiting, stored.reserved,
          stored.single⟩
      · rw [next_eq]
        exact ⟨keeps.of_units rfl, keeps.presented, keeps.waiting, keeps.reserved, keeps.single⟩
  | buildBundle call =>
      obtain unchanged | ⟨context, marked, nodup, built, next_eq⟩ := perform_buildBundle call met
      · rwa [unchanged]
      · rw [next_eq]
        exact keeps.afterBundle built nodup
  | onReceiptConfirmed receipt =>
      obtain unchanged | ⟨context, checked, unused, next_eq⟩ :=
        db.perform_onReceiptConfirmed receipt
      · rwa [unchanged]
      · rw [next_eq]
        exact keeps.afterReceipt checked (met context checked unused)
  | markReceiptMissing seq =>
      cases found : db.getPendingBundle seq with
      | none => rwa [perform_markReceiptMissing_of_none found]
      | some context =>
          rw [perform_markReceiptMissing found]
          exact keeps.afterMissing found
  | rollbackPendingBundle seq =>
      cases found : db.getPendingBundle seq with
      | none => rwa [perform_rollbackPendingBundle_of_none found]
      | some context =>
          rw [(perform_rollbackPendingBundle found).1]
          exact keeps.afterRollback found
  | observeCanonicalHeader header =>
      exact ⟨keeps.of_units rfl, keeps.presented, keeps.waiting, keeps.reserved, keeps.single⟩

omit [DecidableEq H] in
theorem keepsChain_new (address : Address) (genesisBlockHash : H) :
    (LocalWalletDB.new address genesisBlockHash).KeepsChain where
  keyed := by nofun
  numbered := rfl
  ascending := .nil
  linked := .nil
  presented := by nofun
  waiting := by nofun
  reserved := by nofun
  single := onePending_of_none fun _ => rfl

/-- In a run that creates no record behind a stored unit, and whose receipts continue the account's
chain, every live record presents exactly the units since its acquisition. -/
theorem histories_complete (address : Address) (genesisBlockHash : H) (calls : List (WalletCall H))
    (along : Along LocalWalletDB.perform KeepsHistory (.new address genesisBlockHash) calls) :
    ∀ record ∈ ((LocalWalletDB.new address genesisBlockHash).run calls).records, Live record →
      ((LocalWalletDB.new address genesisBlockHash).run calls).CompleteFor record := by
  have keeps : ((LocalWalletDB.new address genesisBlockHash).run calls).KeepsChain :=
    along.invariant (fun _ _ keeps met => keeps.perform met)
      (keepsChain_new address genesisBlockHash)
  exact fun record member live => keeps.completeFor member live

end Crypto

section Examples

open SymbolicDigest ChainStateV2 V2TransferValidator

/-- The bundle that sends the middle of Alice's value. -/
def partialBundle : BundleSidecar := transferBundle alice bob middle

/-- The bundle of Alice's call as a host would confirm it. -/
def partialEntry : PeerEntry SymbolicDigest :=
  genesis.honestEntry (bundleEnvelope partialCall partialCall_seq_pos partialBundle)
    partialBundle [1]

theorem partialEntry_valid : genesis.PeerEntryValid partialEntry where
  signer := rfl
  bundleHash := rfl
  claimSet := .inr rfl
  signature := by decide
  notExpired := by decide
  prevRef := rfl
  seq := by decide
  known := by decide

/-- The unit of Alice's bundle. -/
def partialUnit : ConfirmedBundleUnit SymbolicDigest := peerUnit genesis 1 partialEntry

/-- Alice adds a genesis value, sends the middle of it, and learns of the header. -/
def bundleCalls : List (WalletCall SymbolicDigest) :=
  [.addGenesisValue coin "coin", .buildBundle partialCall,
    .observeCanonicalHeader partialUnit.receipt.headerLite]

/-- Alice's wallet, which waits for the receipt of her bundle. -/
def waitingWallet : LocalWalletDB SymbolicDigest :=
  (LocalWalletDB.new alice (filled 0)).run bundleCalls

/-- The context of Alice's pending bundle. -/
def partialContext : PendingBundleContext SymbolicDigest :=
  (waitingWallet.getPendingBundle 1).get rfl

theorem waitingWallet_checked :
    waitingWallet.ReceiptChecked partialUnit.receipt partialContext := by
  obtain ⟨proof, proof_eq, verified⟩ := (receiptAccepted_peerUnit partialEntry_valid).stateProof
  exact
    { pending := (Option.some_get _).symm
      known := WalletAccountV2.knowsCanonicalHeader_observe_self
        (fundedWallet.perform (.buildBundle partialCall)).toWalletAccountV2 _
      prevRef := rfl
      stateProof := ⟨proof, proof_eq, verified⟩ }

theorem perform_waitingWallet : waitingWallet.perform (.onReceiptConfirmed partialUnit.receipt) =
    waitingWallet.afterReceipt partialUnit.receipt partialContext :=
  waitingWallet_checked.perform_eq (by nofun)

/-- A part of Alice's value stays hers, and presents the unit that spent the middle. -/
theorem histories_complete_partialCall :
    ∃ record ∈ ((LocalWalletDB.new alice (filled 0)).run
        (bundleCalls ++ [.onReceiptConfirmed partialUnit.receipt])).records, Live record ∧
      ((LocalWalletDB.new alice (filled 0)).run
        (bundleCalls ++ [.onReceiptConfirmed partialUnit.receipt])).CompleteFor record := by
  have along : Along LocalWalletDB.perform KeepsHistory (.new alice (filled 0))
      (bundleCalls ++ [.onReceiptConfirmed partialUnit.receipt]) := by
    refine along_append.mpr ⟨⟨by nofun, freshIds_fundedWallet, trivial, trivial⟩, ?_, trivial⟩
    intro context _ _
    have acquired : ∀ record ∈ waitingWallet.records, record.acquisitionHeight = 0 := by decide
    exact
      { next := rfl
        above := by nofun
        acquired := fun record member _ => (acquired record member).trans_lt Nat.one_pos }
  have complete := histories_complete alice (filled 0) _ along
  obtain ⟨source, source_mem, kept, live⟩ : ∃ source ∈ waitingWallet.records,
      source.recordId ∉ partialContext.outgoingRecordIds ∧ Live source := by decide
  have member : confirmRecord (confirmedUnit partialUnit.receipt partialContext)
      partialContext.pendingRecordIds partialContext.outgoingRecordIds source ∈
        ((LocalWalletDB.new alice (filled 0)).run
          (bundleCalls ++ [.onReceiptConfirmed partialUnit.receipt])).records := by
    rw [run_concat]
    exact perform_waitingWallet ▸ mem_mapRecords.mpr ⟨source, source_mem, rfl⟩
  have outgoing_subset : partialContext.outgoingRecordIds ⊆ partialContext.pendingRecordIds := by
    decide
  have stays : Live (confirmRecord (confirmedUnit partialUnit.receipt partialContext)
      partialContext.pendingRecordIds partialContext.outgoingRecordIds source) := by
    rw [Live, ne_eq, archived_confirmRecord_iff _ outgoing_subset, not_or]
    exact ⟨live, kept⟩
  exact ⟨_, member, stays, complete _ member stays⟩

/-- Alice adds another genesis value after the receipt. -/
def lateCalls : List (WalletCall SymbolicDigest) :=
  bundleCalls ++ [.onReceiptConfirmed partialUnit.receipt] ++
    [.addGenesisValue ⟨20, 29, by decide⟩ "late"]

/-- The late value presents no unit, although a unit above its acquisition height is stored. -/
theorem lateGenesisValue_incomplete :
    ¬ ∀ record ∈ ((LocalWalletDB.new alice (filled 0)).run lateCalls).records, Live record →
      ((LocalWalletDB.new alice (filled 0)).run lateCalls).CompleteFor record := by
  have received := perform_waitingWallet
  have fresh : "late" ∉ (waitingWallet.afterReceipt partialUnit.receipt partialContext).records.map
      LocalValueRecord.recordId := by
    intro member
    obtain ⟨record, record_mem, id_eq⟩ := List.mem_map.mp member
    obtain ⟨source, source_mem, rfl⟩ := mem_mapRecords.mp record_mem
    rw [recordId_confirmRecord] at id_eq
    have unused : "late" ∉ waitingWallet.records.map LocalValueRecord.recordId := by decide
    exact unused (id_eq ▸ List.mem_map_of_mem source_mem)
  have stored : confirmedUnit partialUnit.receipt partialContext ∈
      (waitingWallet.afterReceipt partialUnit.receipt partialContext).confirmedUnits.values :=
    (OrderedDict.mem_values_iff _ _).mpr ⟨_, OrderedDict.get?_set_self _ _ _⟩
  have above : 0 < (confirmedUnit partialUnit.receipt partialContext).height := Nat.one_pos
  -- From here on only these facts about the confirmed state matter.
  generalize waitingWallet.afterReceipt partialUnit.receipt partialContext = confirmed at *
  have run_eq : (LocalWalletDB.new alice (filled 0)).run lateCalls =
      confirmed.withRecord (confirmed.genesisRecord ⟨20, 29, by decide⟩ "late") fresh := by
    rw [← perform_addGenesisValue fresh, ← received, lateCalls, run_concat, run_concat,
      waitingWallet]
  rw [run_eq]
  intro complete
  have late := complete (confirmed.genesisRecord ⟨20, 29, by decide⟩ "late")
    (mem_records_withRecords.mpr (List.mem_concat_self)) LocalValueStatus.noConfusion
  exact List.not_mem_nil ((late.units _).mpr ⟨stored, above⟩)

end Examples

end LocalWalletDB

end EZChain
