import EZChain.Wallet.SenderUnits

/-!
# Credited genesis allocations

A sync credits an allocation unless some record is anchored in it.  Every call replaces a record by
records with the same anchor that hold the same atoms, archived ones included, so the anchor of a
credited allocation is never lost.
-/

namespace EZChain

open Checks Cover Runs

/-- The genesis anchor that a history ends in directly. -/
def WitnessV2.genesisAnchor? {H : Type} : WitnessV2 H → Option (GenesisAnchor H)
  | .genesis _ _ _ anchor => some anchor
  | .checkpoint _ _ _ _ | .prior _ _ _ _ _ => none

/-- An allocation in a response: no dictionary, unreadable ends, or the two ends. -/
abbrev AllocationItem : Type := Option (Except String (ℤ × ℤ))

/-- The response to a request for genesis allocations. -/
structure AllocationsResponse where
  ok : Bool
  error : Option String
  /-- The owner without surrounding blanks. -/
  ownerAddr : String
  allocations : List AllocationItem

namespace LocalWalletDB

variable {H : Type}

/-- The loop of `has_genesis_value`. -/
def hasGenesisValueIn (address : Address) (value : ValueRange) :
    List (LocalValueRecord H) → Except String Bool
  | [] => .ok false
  | record :: rest =>
      match record.witnessV2.genesisAnchor? with
      | none => hasGenesisValueIn address value rest
      | some anchor =>
          if anchor.firstOwnerAddr ≠ address then hasGenesisValueIn address value rest
          else do
            let anchorRange ← ValueRange.ofInts anchor.valueBegin anchor.valueEnd
            if anchorRange = value then pure true else hasGenesisValueIn address value rest

/-- `has_genesis_value`. -/
def hasGenesisValue (db : LocalWalletDB H) (value : ValueRange) : Except String Bool :=
  hasGenesisValueIn db.address value db.records

section Calls

variable [Crypto H] [DecidableEq H]

/-- The loop of `sync_genesis_allocations`, with the number of allocations applied so far. -/
def creditAllocations (recordIds : ℕ → String) (db : LocalWalletDB H) (applied : ℕ) :
    List AllocationItem → Except String ℕ × LocalWalletDB H
  | [] => (.ok applied, db)
  | none :: rest => creditAllocations recordIds db applied rest
  | some item :: rest =>
      match item >>= fun ends => ValueRange.ofInts ends.1 ends.2 with
      | .error message => (.error message, db)
      | .ok value =>
          match db.hasGenesisValue value with
          | .error message => (.error message, db)
          | .ok true => creditAllocations recordIds db applied rest
          | .ok false =>
              match db.execute (db.addGenesisValue value (recordIds applied)) with
              | (.error message, next) => (.error message, next)
              | (.ok _, next) => creditAllocations recordIds next (applied + 1) rest

/-- `sync_genesis_allocations`, for what the request raises or returns. -/
def syncGenesisAllocations (db : LocalWalletDB H)
    (response : Except String (Option AllocationsResponse)) (recordIds : ℕ → String) :
    Except String ℕ × LocalWalletDB H :=
  match response with
  | .error message => (.error message, db)
  | .ok none => (.error "missing_genesis_allocations_response", db)
  | .ok (some answer) =>
      if answer.ok ≠ true then
        (.error (answer.error.getD "genesis_allocations_request_failed"), db)
      else if answer.ownerAddr ≠ db.address.text then
        (.error "genesis_allocation_owner_mismatch", db)
      else creditAllocations recordIds db 0 answer.allocations

/-- A call of the account host's wallet, or a sync of the genesis allocations. -/
inductive AccountCall (H : Type) where
  | sender (call : SenderCall H)
  | syncGenesisAllocations (response : Except String (Option AllocationsResponse))
      (recordIds : ℕ → String)

/-- The database after a call, which may raise. -/
def performAccount (db : LocalWalletDB H) : AccountCall H → LocalWalletDB H
  | .sender call => db.performSender call
  | .syncGenesisAllocations response recordIds => (db.syncGenesisAllocations response recordIds).2

end Calls

/-! ## Records of an allocation -/

/-- The history ends in the allocation, as the first owner's. -/
def AnchoredIn (address : Address) (allocation : ValueRange) (record : LocalValueRecord H) : Prop :=
  ∃ anchor ∈ record.witnessV2.genesisAnchor?, anchor.firstOwnerAddr = address ∧
    anchor.valueBegin = allocation.valueBegin ∧ anchor.valueEnd = allocation.valueEnd

instance (address : Address) (allocation : ValueRange) :
    DecidablePred (AnchoredIn (H := H) address allocation) := fun record =>
  inferInstanceAs (Decidable (∃ anchor ∈ record.witnessV2.genesisAnchor?, _))

/-- The records anchored in an allocation. -/
def anchoredRecords (db : LocalWalletDB H) (allocation : ValueRange) :
    List (LocalValueRecord H) :=
  db.records.filter fun record => AnchoredIn db.address allocation record

/-- Some record is anchored in the allocation. -/
def Credited (db : LocalWalletDB H) (allocation : ValueRange) : Prop :=
  ∃ record ∈ db.records, AnchoredIn db.address allocation record

instance (db : LocalWalletDB H) (allocation : ValueRange) : Decidable (db.Credited allocation) :=
  inferInstanceAs (Decidable (∃ record ∈ db.records, _))

/-- The records anchored in an allocation hold its atoms, each of them once. -/
structure HoldsOnce (db : LocalWalletDB H) (allocation : ValueRange) : Prop where
  covered : cover recordAtoms (db.anchoredRecords allocation) = allocation.atoms
  apart : Apart recordAtoms (db.anchoredRecords allocation)

/-- Every credited allocation is held once, and own anchors start at an atom. -/
structure HoldsCredited (db : LocalWalletDB H) : Prop where
  once : ∀ allocation, db.Credited allocation → db.HoldsOnce allocation
  valid : ∀ record ∈ db.records, ∀ anchor ∈ record.witnessV2.genesisAnchor?,
    0 ≤ anchor.valueBegin

/-- Records with the anchor of a record that share its atoms among them. -/
structure SameOrigin (record : LocalValueRecord H) (group : List (LocalValueRecord H)) : Prop where
  anchor : ∀ item ∈ group, item.witnessV2.genesisAnchor? = record.witnessV2.genesisAnchor?
  covered : cover recordAtoms group = recordAtoms record
  apart : Apart recordAtoms group

/-- Every record is replaced by records of the same origin, and further records have no genesis
anchor. -/
structure KeepsOrigins (db next : LocalWalletDB H) : Prop where
  address_eq : next.address = db.address
  origin : ∃ groups others, List.Forall₂ SameOrigin db.records groups ∧
    next.records.Perm (groups.flatten ++ others) ∧
      ∀ record ∈ others, record.witnessV2.genesisAnchor? = none

section Origin

variable {db next : LocalWalletDB H} {allocation : ValueRange}

theorem SameOrigin.anchoredIn_iff {record item : LocalValueRecord H}
    {group : List (LocalValueRecord H)} (same : SameOrigin record group) (member : item ∈ group)
    (address : Address) :
    AnchoredIn address allocation item ↔ AnchoredIn address allocation record := by
  rw [AnchoredIn, AnchoredIn, same.anchor item member]

/-- A group holds the anchored atoms of its record. -/
theorem SameOrigin.cellOf_anchored {record : LocalValueRecord H} {group : List (LocalValueRecord H)}
    (same : SameOrigin record group) (address : Address) :
    cover (cellOf (AnchoredIn address allocation) recordAtoms) group =
        cellOf (AnchoredIn address allocation) recordAtoms record ∧
      Apart (cellOf (AnchoredIn address allocation) recordAtoms) group := by
  refine ⟨?_, same.apart.mono fun item _ => ?_⟩
  · ext atom
    simp only [mem_cover, cellOf]
    by_cases anchored : AnchoredIn address allocation record
    · rw [if_pos anchored, ← same.covered, mem_cover]
      refine exists_congr fun item => and_congr_right fun member => ?_
      rw [if_pos ((same.anchoredIn_iff member address).mpr anchored)]
    · rw [if_neg anchored]
      refine iff_of_false ?_ (Finset.notMem_empty atom)
      rintro ⟨item, member, inside⟩
      rw [if_neg (mt (same.anchoredIn_iff member address).mp anchored)] at inside
      exact Finset.notMem_empty atom inside
  · rw [cellOf]
    split
    · exact Finset.Subset.refl _
    · exact Finset.empty_subset _

/-- The anchored atoms of records of the same origins. -/
theorem KeepsOrigins.anchored (keeps : KeepsOrigins db next) (allocation : ValueRange) :
    cover recordAtoms (next.anchoredRecords allocation) =
        cover recordAtoms (db.anchoredRecords allocation) ∧
      (Apart recordAtoms (db.anchoredRecords allocation) →
        Apart recordAtoms (next.anchoredRecords allocation)) := by
  obtain ⟨groups, others, same, perm, unanchored⟩ := keeps.origin
  have none_other : others.filter (fun record => AnchoredIn db.address allocation record) = [] := by
    refine List.filter_eq_nil_iff.mpr fun record member => ?_
    simp [AnchoredIn, unanchored record member]
  have filtered : (next.anchoredRecords allocation).Perm
      (groups.flatten.filter fun record => AnchoredIn db.address allocation record) := by
    have filtered := perm.filter fun record => decide (AnchoredIn db.address allocation record)
    rw [List.filter_append, none_other, List.append_nil] at filtered
    rwa [anchoredRecords, keeps.address_eq]
  rw [cover_perm filtered, apart_perm filtered, anchoredRecords, cover_filter, cover_filter,
    apart_filter, apart_filter]
  constructor
  · exact cover_flatten (same.imp fun record group same => (same.cellOf_anchored db.address).1)
  · intro apart
    refine (apart.flatten (same.imp fun record group same => ?_)).1
    exact ⟨(same.cellOf_anchored db.address).1.subset, (same.cellOf_anchored db.address).2⟩

theorem credited_iff_nonempty :
    db.Credited allocation ↔ (cover recordAtoms (db.anchoredRecords allocation)).Nonempty := by
  constructor
  · rintro ⟨record, member, anchored⟩
    refine ⟨record.value.valueBegin, mem_cover.mpr ⟨record, List.mem_filter.mpr
      ⟨member, decide_eq_true anchored⟩, ?_⟩⟩
    exact ValueRange.mem_atoms.mpr ⟨le_rfl, record.value.begin_le_end⟩
  · rintro ⟨atom, inside⟩
    obtain ⟨record, member, _⟩ := mem_cover.mp inside
    obtain ⟨member, anchored⟩ := List.mem_filter.mp member
    exact ⟨record, member, of_decide_eq_true anchored⟩

/-- Only the address and the records matter. -/
theorem KeepsOrigins.congr {other : LocalWalletDB H} (keeps : KeepsOrigins db next)
    (address_eq : other.address = next.address) (records_eq : other.records = next.records) :
    KeepsOrigins db other :=
  ⟨address_eq.trans keeps.address_eq, records_eq ▸ keeps.origin⟩

theorem KeepsOrigins.credited_iff (keeps : KeepsOrigins db next) :
    next.Credited allocation ↔ db.Credited allocation := by
  rw [credited_iff_nonempty, credited_iff_nonempty, (keeps.anchored allocation).1]

theorem KeepsOrigins.holdsCredited (keeps : KeepsOrigins db next) (holds : db.HoldsCredited) :
    next.HoldsCredited := by
  constructor
  · intro allocation credited
    obtain ⟨covered, apart⟩ := keeps.anchored allocation
    have once := holds.once allocation (keeps.credited_iff.mp credited)
    exact ⟨covered.trans once.covered, apart once.apart⟩
  · intro record member anchor anchor_mem
    obtain ⟨groups, others, same, perm, unanchored⟩ := keeps.origin
    rcases List.mem_append.mp (perm.mem_iff.mp member) with in_groups | other
    · obtain ⟨source, source_mem, group, origin, in_group⟩ := exists_item same in_groups
      rw [origin.anchor record in_group] at anchor_mem
      exact holds.valid source source_mem anchor anchor_mem
    · rw [unanchored record other] at anchor_mem
      cases anchor_mem

end Origin

/-! ## Calls that keep the origins -/

section Segments

theorem sameOrigin_singleton {record changed : LocalValueRecord H}
    (anchor_eq : changed.witnessV2.genesisAnchor? = record.witnessV2.genesisAnchor?)
    (value_eq : changed.value = record.value) : SameOrigin record [changed] where
  anchor := fun item member => by rw [List.mem_singleton.mp member, anchor_eq]
  covered := by simp [recordAtoms, value_eq]
  apart := List.pairwise_singleton _ _

theorem forall₂_map_singleton {change : LocalValueRecord H → LocalValueRecord H}
    (anchor_eq : ∀ record, (change record).witnessV2.genesisAnchor? =
      record.witnessV2.genesisAnchor?)
    (value_eq : ∀ record, (change record).value = record.value)
    (records : List (LocalValueRecord H)) :
    List.Forall₂ SameOrigin records (records.map fun record => [change record]) := by
  induction records with
  | nil => exact .nil
  | cons record records induction =>
      exact .cons (sameOrigin_singleton (anchor_eq record) (value_eq record)) induction

@[simp]
theorem genesisAnchor?_appendConfirmedUnit (value : ValueRange) (unit : ConfirmedBundleUnit H)
    (witness : WitnessV2 H) :
    (witness.appendConfirmedUnit value unit).genesisAnchor? = witness.genesisAnchor? := by
  cases witness <;> rfl

theorem genesisAnchor?_confirmRecord (unit : ConfirmedBundleUnit H)
    (pendingRecordIds outgoingRecordIds : List String) (record : LocalValueRecord H) :
    (confirmRecord unit pendingRecordIds outgoingRecordIds record).witnessV2.genesisAnchor? =
      record.witnessV2.genesisAnchor? := by
  rw [confirmRecord]
  split_ifs
  · rfl
  · exact genesisAnchor?_appendConfirmedUnit record.value unit record.witnessV2
  · exact genesisAnchor?_appendConfirmedUnit record.value unit record.witnessV2
  · rfl
  · rfl
  · exact genesisAnchor?_appendConfirmedUnit record.value unit record.witnessV2

variable {db next : LocalWalletDB H}

theorem keepsOrigins_of_records (address_eq : next.address = db.address)
    (records_eq : next.records = db.records) : KeepsOrigins db next := by
  refine ⟨address_eq, db.records.map fun record => [record], [],
    forall₂_map_singleton (fun _ => rfl) (fun _ => rfl) db.records, ?_, List.forall_mem_nil _⟩
  rw [records_eq, List.append_nil, ← List.flatMap_def, List.flatMap_singleton']

theorem keepsOrigins_mapRecords {change : LocalValueRecord H → LocalValueRecord H}
    {recordId_eq : ∀ record, (change record).recordId = record.recordId}
    (anchor_eq : ∀ record, (change record).witnessV2.genesisAnchor? =
      record.witnessV2.genesisAnchor?)
    (value_eq : ∀ record, (change record).value = record.value)
    (address_eq : next.address = db.address) (records_eq : next.records = db.records) :
    KeepsOrigins db (next.mapRecords change recordId_eq) := by
  refine ⟨address_eq, db.records.map fun record => [change record], [],
    forall₂_map_singleton anchor_eq value_eq db.records, ?_, List.forall_mem_nil _⟩
  rw [List.append_nil, ← List.flatMap_def, ← List.map_eq_flatMap, ← records_eq]
  exact perm_records_withRecords _ _

theorem keepsOrigins_withRecord {record : LocalValueRecord H}
    (unanchored : record.witnessV2.genesisAnchor? = none)
    (fresh : record.recordId ∉ db.records.map LocalValueRecord.recordId) :
    KeepsOrigins db (db.withRecord record fresh) := by
  refine ⟨rfl, db.records.map fun record => [record], [record],
    forall₂_map_singleton (fun _ => rfl) (fun _ => rfl) db.records, ?_, ?_⟩
  · rw [← List.flatMap_def, List.flatMap_singleton']
    exact perm_records_withRecords db (db.nodup_concat_recordId fresh)
  · intro other member
    rw [List.mem_singleton.mp member, unanchored]

theorem AppliedInto.sameOrigin {address : Address} {unit : ConfirmedBundleUnit H}
    {outgoingValues : List ValueRange} {recordIds : ℕ → String} {record : LocalValueRecord H}
    {group : List (LocalValueRecord H)}
    (into : AppliedInto address unit outgoingValues recordIds record group) :
    SameOrigin record group := by
  obtain ⟨covered, apart⟩ := into.cover_eq_and_apart
  refine ⟨fun item member => ?_, covered, apart⟩
  cases into with
  | kept untouched => rw [List.mem_singleton.mp member]
  | whole touched unspent =>
      rw [List.mem_singleton.mp member]
      exact genesisAnchor?_appendConfirmedUnit record.value unit record.witnessV2
  | split touched segments index partitions =>
      obtain ⟨named, _, rfl⟩ := List.mem_map.mp member
      rw [appliedSegment]
      cases record.witnessV2 <;> rfl

theorem SplitInto.sameOrigin {recordIds : ℕ → String}
    {assignments : OrderedDict String (List ValueRange)} {record : LocalValueRecord H}
    {group : List (LocalValueRecord H × Option Bool)}
    (into : SplitInto recordIds assignments record group) :
    SameOrigin record (group.map Prod.fst) := by
  rcases into with ⟨_, rfl⟩ | ⟨_, segments, index, partitions, rfl⟩
  · exact sameOrigin_singleton rfl rfl
  · let segmentRecords := (segments.zipIdx index).map fun item =>
      reservedSegment record (recordIds item.2) item.1.1
    have parts : cover recordAtoms segmentRecords = recordAtoms record ∧
        Apart recordAtoms segmentRecords :=
      cover_and_apart_of_partitions partitions (fun _ => rfl) index
    rw [reservedGroup, List.map_map]
    refine ⟨fun item member => ?_, parts.1, parts.2⟩
    obtain ⟨named, _, rfl⟩ := List.mem_map.mp member
    cases witness_eq : record.witnessV2 <;> simp [reservedSegment, witness_eq] <;> rfl

end Segments

section Perform

variable [Crypto H] [DecidableEq H] {db : LocalWalletDB H}

omit [DecidableEq H] in
theorem buildBundle_groups {call : BundleCall} {submission : BundleSubmission H}
    {context : PendingBundleContext H} {transactions : List (Transaction H)}
    (built : db.buildBundle call = .ok ((submission, context), transactions)) :
    ∃ groups, List.Forall₂ SameOrigin db.records groups ∧
      transactions = [.saveSidecar context.sidecar, .savePendingBundle context,
        .replaceValueRecords groups.flatten] := by
  simp only [buildBundle, bind_eq_ok, require_eq_ok, exists_const, pure_eq_ok, Prod.exists,
    Prod.mk.injEq] at built
  obtain ⟨_, _, rfl, _, _, _, _, assignments, _, split, split_eq, sidecar, envelope, _,
    ⟨rfl, rfl⟩, rfl⟩ := built
  obtain ⟨groups, _, into, rfl, _⟩ := splitRecords_groups split_eq
  refine ⟨groups.map (List.map Prod.fst), ?_, ?_⟩
  · rw [List.forall₂_map_right_iff]
    exact into.imp fun _ _ split => split.sameOrigin
  · rw [← List.map_flatten]
    rfl

theorem keepsOrigins_buildBundle {call : BundleCall} (fresh : db.FreshIds call.recordIds) :
    KeepsOrigins db (db.perform (.buildBundle call)) := by
  cases planned : db.buildBundle call with
  | error message =>
      have unchanged : db.perform (.buildBundle call) = db :=
        perform_of_error (by rw [plan, planned]; rfl)
      rw [unchanged]
      exact keepsOrigins_of_records rfl rfl
  | ok result =>
      obtain ⟨⟨submission, context⟩, transactions⟩ := result
      obtain ⟨marked, built, _, transactions_eq⟩ := buildBundle_built planned
      obtain ⟨groups, origin, rfl⟩ := buildBundle_groups planned
      have records_eq : groups.flatten = marked.map Prod.fst := by
        simpa using transactions_eq
      have nodup : ((marked.map Prod.fst).map LocalValueRecord.recordId).Nodup := by
        rw [List.map_map]
        exact built.split.ids_nodup fresh
      have performed : db.perform (.buildBundle call) =
          db.afterBundle context (marked.map Prod.fst) nodup := by
        rw [perform_of_ok (by rw [plan, planned]; rfl), records_eq, built.commitAll_eq nodup]
      rw [performed]
      refine ⟨rfl, groups, [], origin, ?_, List.forall_mem_nil _⟩
      rw [List.append_nil, records_eq]
      exact perm_records_withRecords _ nodup

/-- A call of the wallet other than adding a genesis value keeps the origins. -/
theorem keepsOrigins_perform {call : WalletCall H} (fresh : db.FreshSenderCall (.wallet call))
    (adds_none : ∀ value recordId, call ≠ .addGenesisValue value recordId) :
    KeepsOrigins db (db.perform call) := by
  cases call with
  | addGenesisValue value recordId => exact absurd rfl (adds_none value recordId)
  | receiveTransfer package context recordId =>
      rcases db.perform_receiveTransfer package context recordId with ⟨newest, stores⟩ |
        ⟨sidecars, performed⟩
      · rw [stores.perform_eq]
        have unanchored : (db.receivedRecord package recordId newest).witnessV2.genesisAnchor? =
            none := rfl
        exact (keepsOrigins_withRecord unanchored stores.fresh).congr rfl rfl
      · rw [performed]
        exact keepsOrigins_of_records rfl rfl
  | buildBundle call => exact keepsOrigins_buildBundle fresh
  | onReceiptConfirmed receipt =>
      rcases db.perform_onReceiptConfirmed receipt with performed |
        ⟨context, _, _, performed⟩
      · rw [performed]
        exact keepsOrigins_of_records rfl rfl
      · rw [performed, afterReceipt]
        exact keepsOrigins_mapRecords (genesisAnchor?_confirmRecord _ _ _)
          (value_confirmRecord _ _ _)
          rfl rfl
  | markReceiptMissing seq =>
      cases pending : db.getPendingBundle seq with
      | none =>
          rw [perform_markReceiptMissing_of_none pending]
          exact keepsOrigins_of_records rfl rfl
      | some context =>
          rw [perform_markReceiptMissing pending]
          refine keepsOrigins_mapRecords (fun record => ?_) (value_missRecord _) rfl rfl
          rw [missRecord]
          split_ifs <;> rfl
  | rollbackPendingBundle seq =>
      cases pending : db.getPendingBundle seq with
      | none =>
          rw [perform_rollbackPendingBundle_of_none pending]
          exact keepsOrigins_of_records rfl rfl
      | some context =>
          rw [(perform_rollbackPendingBundle pending).1, afterRollback]
          refine keepsOrigins_mapRecords (fun record => ?_) (value_releaseRecord _) rfl rfl
          rw [releaseRecord]
          split_ifs <;> rfl
  | observeCanonicalHeader header => exact keepsOrigins_of_records rfl rfl

theorem keepsOrigins_performSender {call : SenderCall H} (fresh : db.FreshSenderCall call)
    (adds_none : ∀ value recordId, call ≠ .wallet (.addGenesisValue value recordId)) :
    KeepsOrigins db (db.performSender call) := by
  cases call with
  | wallet call =>
      exact keepsOrigins_perform fresh fun value recordId call_eq =>
        adds_none value recordId (congrArg SenderCall.wallet call_eq)
  | applySenderConfirmedUnit unit outgoingValues recordIds =>
      rcases execute_applySenderConfirmedUnit unit outgoingValues fresh with
        ⟨_, groups, nodup, into, performed⟩ | ⟨_, performed⟩
      · rw [performSender, performed]
        refine ⟨rfl, groups, [], into.imp fun _ _ applied => applied.sameOrigin, ?_,
          List.forall_mem_nil _⟩
        rw [List.append_nil]
        exact perm_records_withRecords db nodup
      · rw [performSender, performed]
        exact keepsOrigins_of_records rfl rfl

end Perform

/-! ## Syncs -/

/-- Nothing is added to an allocation that was credited before. -/
structure AddsNoneTo (db next : LocalWalletDB H) : Prop where
  address_eq : next.address = db.address
  same : ∀ allocation, db.Credited allocation →
    (next.anchoredRecords allocation).Perm (db.anchoredRecords allocation)

section Credit

variable {db next : LocalWalletDB H} {allocation value : ValueRange} {recordId : String}

theorem credited_iff_ne_nil : db.Credited allocation ↔ db.anchoredRecords allocation ≠ [] := by
  rw [Credited, anchoredRecords, Ne, List.filter_eq_nil_iff]
  simp

theorem AddsNoneTo.refl (db : LocalWalletDB H) : AddsNoneTo db db := ⟨rfl, fun _ _ => .refl _⟩

theorem AddsNoneTo.credited (adds : AddsNoneTo db next) (credited : db.Credited allocation) :
    next.Credited allocation := by
  rw [credited_iff_ne_nil] at credited ⊢
  intro empty
  have same := adds.same allocation (credited_iff_ne_nil.mpr credited)
  rw [empty] at same
  exact credited same.symm.eq_nil

theorem AddsNoneTo.trans {last : LocalWalletDB H} (first : AddsNoneTo db next)
    (second : AddsNoneTo next last) : AddsNoneTo db last where
  address_eq := second.address_eq.trans first.address_eq
  same := fun allocation credited =>
    (second.same allocation (first.credited credited)).trans (first.same allocation credited)

theorem exists_anchorRange {record : LocalValueRecord H} {anchor : GenesisAnchor H}
    (anchor_eq : record.witnessV2.genesisAnchor? = some anchor)
    (begin_nonneg : 0 ≤ anchor.valueBegin) (address : Address) :
    ∃ range, ValueRange.ofInts anchor.valueBegin anchor.valueEnd = .ok range ∧
      ∀ value, AnchoredIn address value record ↔
        anchor.firstOwnerAddr = address ∧ range = value := by
  have ordered := anchor.begin_le_end
  let range : ValueRange := ⟨anchor.valueBegin.toNat, anchor.valueEnd.toNat, by omega⟩
  have begin_eq : anchor.valueBegin = range.valueBegin := (Int.toNat_of_nonneg begin_nonneg).symm
  have end_eq : anchor.valueEnd = range.valueEnd :=
    (Int.toNat_of_nonneg (begin_nonneg.trans ordered)).symm
  refine ⟨range, ValueRange.ofInts_eq_ok_iff.mpr ⟨begin_eq, end_eq⟩, fun value => ?_⟩
  simp only [AnchoredIn, anchor_eq, Option.mem_def, Option.some.injEq, exists_eq_left', begin_eq,
    end_eq, Int.ofNat_inj, ValueRange.ext_iff]

/-- The loop of `has_genesis_value` looks for an anchored record. -/
theorem hasGenesisValueIn_eq {address : Address} {records : List (LocalValueRecord H)}
    (valid : ∀ record ∈ records, ∀ anchor ∈ record.witnessV2.genesisAnchor?,
      0 ≤ anchor.valueBegin) :
    hasGenesisValueIn address value records =
      .ok (decide (∃ record ∈ records, AnchoredIn address value record)) := by
  induction records with
  | nil => rfl
  | cons record rest induction =>
      obtain ⟨record_valid, rest_valid⟩ := List.forall_mem_cons.mp valid
      have rest_eq := induction rest_valid
      rw [hasGenesisValueIn]
      simp only [List.exists_mem_cons_iff]
      cases anchor_eq : record.witnessV2.genesisAnchor? with
      | none =>
          have unanchored : ¬ AnchoredIn address value record := by simp [AnchoredIn, anchor_eq]
          simpa [unanchored] using rest_eq
      | some anchor =>
          obtain ⟨range, range_eq, anchored_iff⟩ :=
            exists_anchorRange anchor_eq (record_valid anchor anchor_eq) address
          simp only [range_eq, rest_eq, anchored_iff]
          by_cases owner : anchor.firstOwnerAddr = address
          · by_cases same : range = value
            · simp [owner, same, pure, Except.pure, bind, Except.bind]
            · simp [owner, same, bind, Except.bind]
          · simp [owner]

theorem HoldsCredited.hasGenesisValue_eq (holds : db.HoldsCredited) (value : ValueRange) :
    db.hasGenesisValue value = .ok (decide (db.Credited value)) :=
  hasGenesisValueIn_eq holds.valid

theorem anchoredRecords_withRecord (record : LocalValueRecord H)
    (fresh : record.recordId ∉ db.records.map LocalValueRecord.recordId)
    (allocation : ValueRange) :
    ((db.withRecord record fresh).anchoredRecords allocation).Perm
      (db.anchoredRecords allocation ++
        [record].filter fun record => AnchoredIn db.address allocation record) := by
  have perm := (perm_records_withRecords db (db.nodup_concat_recordId fresh)).filter fun record =>
    decide (AnchoredIn db.address allocation record)
  rwa [List.filter_append] at perm

theorem anchoredIn_genesisRecord :
    AnchoredIn db.address allocation (db.genesisRecord value recordId) ↔ value = allocation := by
  simp only [AnchoredIn, genesisRecord, WitnessV2.genesisAnchor?, Option.mem_def,
    Option.some.injEq, exists_eq_left', Int.ofNat_inj, true_and, ValueRange.ext_iff]

variable (fresh : (db.genesisRecord value recordId).recordId ∉
  db.records.map LocalValueRecord.recordId)

theorem anchoredRecords_withGenesis (other : value ≠ allocation) :
    ((db.withRecord (db.genesisRecord value recordId) fresh).anchoredRecords allocation).Perm
      (db.anchoredRecords allocation) := by
  have perm := anchoredRecords_withRecord (db.genesisRecord value recordId) fresh allocation
  rwa [List.filter_singleton, decide_eq_false (mt anchoredIn_genesisRecord.mp other), cond_false,
    List.append_nil] at perm

theorem addsNoneTo_withGenesis (uncredited : ¬ db.Credited value) :
    AddsNoneTo db (db.withRecord (db.genesisRecord value recordId) fresh) where
  address_eq := rfl
  same := fun _ credited =>
    anchoredRecords_withGenesis fresh fun value_eq => uncredited (value_eq ▸ credited)

/-- An allocation that is credited for the first time is held once. -/
theorem HoldsCredited.withGenesis (holds : db.HoldsCredited) (uncredited : ¬ db.Credited value) :
    (db.withRecord (db.genesisRecord value recordId) fresh).HoldsCredited := by
  constructor
  · intro allocation credited
    by_cases same : value = allocation
    · subst same
      have perm := anchoredRecords_withRecord (db.genesisRecord value recordId) fresh value
      rw [credited_iff_ne_nil, not_not] at uncredited
      rw [uncredited, List.nil_append, List.filter_singleton,
        decide_eq_true (anchoredIn_genesisRecord.mpr rfl), cond_true] at perm
      refine ⟨(cover_perm perm).trans ?_, (apart_perm perm).mpr (List.pairwise_singleton _ _)⟩
      exact Finset.union_empty _
    · have perm := anchoredRecords_withGenesis fresh same
      have before : db.Credited allocation := by
        rw [credited_iff_ne_nil] at credited ⊢
        exact fun empty => credited (by rw [empty] at perm; exact perm.eq_nil)
      obtain ⟨covered, apart⟩ := holds.once allocation before
      exact ⟨(cover_perm perm).trans covered, (apart_perm perm).mpr apart⟩
  · intro record member anchor anchor_mem
    rcases List.mem_append.mp (mem_records_withRecords.mp member) with old | new
    · exact holds.valid record old anchor anchor_mem
    · obtain rfl := List.mem_singleton.mp new
      obtain rfl := Option.some.inj anchor_mem
      exact Int.natCast_nonneg value.valueBegin

section Sync

variable [Crypto H] [DecidableEq H]

theorem execute_addGenesisValue (holds : db.HoldsCredited) (uncredited : ¬ db.Credited value)
    (recordId : String) :
    (db.execute (db.addGenesisValue value recordId)).2.HoldsCredited ∧
      AddsNoneTo db (db.execute (db.addGenesisValue value recordId)).2 := by
  have performed : (db.execute (db.addGenesisValue value recordId)).2 =
      db.perform (.addGenesisValue value recordId) :=
    (execute_forget_snd (db.addGenesisValue value recordId)).symm
  rw [performed]
  by_cases taken : recordId ∈ db.records.map LocalValueRecord.recordId
  · rw [perform_addGenesisValue_of_taken taken]
    exact ⟨holds, .refl db⟩
  · rw [perform_addGenesisValue taken]
    exact ⟨holds.withGenesis taken uncredited, addsNoneTo_withGenesis taken uncredited⟩

/-- The loop of a sync credits only allocations without records. -/
theorem creditAllocations_addsNoneTo (recordIds : ℕ → String) (allocations : List AllocationItem)
    (holds : db.HoldsCredited) (applied : ℕ) :
    (creditAllocations recordIds db applied allocations).2.HoldsCredited ∧
      AddsNoneTo db (creditAllocations recordIds db applied allocations).2 := by
  induction allocations generalizing db applied with
  | nil => exact ⟨holds, .refl db⟩
  | cons item rest induction =>
      cases item with
      | none => exact induction holds applied
      | some item =>
          rw [creditAllocations]
          split
          · exact ⟨holds, .refl db⟩
          · next value _ =>
            rw [holds.hasGenesisValue_eq]
            by_cases credited : db.Credited value
            · rw [decide_eq_true credited]
              exact induction holds applied
            · rw [decide_eq_false credited]
              obtain ⟨next_holds, adds⟩ :=
                execute_addGenesisValue holds credited (recordIds applied)
              cases executed : db.execute (db.addGenesisValue value (recordIds applied)) with
              | mk result next =>
                  rw [executed] at next_holds adds
                  cases result with
                  | error message => exact ⟨next_holds, adds⟩
                  | ok record =>
                      obtain ⟨last_holds, later⟩ := induction next_holds (applied + 1)
                      exact ⟨last_holds, adds.trans later⟩

theorem syncGenesisAllocations_addsNoneTo (holds : db.HoldsCredited)
    (response : Except String (Option AllocationsResponse)) (recordIds : ℕ → String) :
    (db.syncGenesisAllocations response recordIds).2.HoldsCredited ∧
      AddsNoneTo db (db.syncGenesisAllocations response recordIds).2 := by
  rcases response with message | (_ | answer)
  · exact ⟨holds, .refl db⟩
  · exact ⟨holds, .refl db⟩
  · simp only [syncGenesisAllocations]
    split_ifs
    · exact ⟨holds, .refl db⟩
    · exact ⟨holds, .refl db⟩
    · exact creditAllocations_addsNoneTo recordIds _ holds 0

/-- The record ids of a call are fresh, and it credits no value on its own account. -/
def AllowedCall (db : LocalWalletDB H) : AccountCall H → Prop
  | .sender call => db.FreshSenderCall call ∧
      ∀ value recordId, call ≠ .wallet (.addGenesisValue value recordId)
  | .syncGenesisAllocations _ _ => True

theorem holdsCredited_performAccount (call : AccountCall H) (holds : db.HoldsCredited)
    (allowed : db.AllowedCall call) :
    (db.performAccount call).HoldsCredited ∧
      ∀ allocation, db.Credited allocation → (db.performAccount call).Credited allocation := by
  cases call with
  | sender call =>
      have keeps := keepsOrigins_performSender allowed.1 allowed.2
      exact ⟨keeps.holdsCredited holds, fun _ credited => keeps.credited_iff.mpr credited⟩
  | syncGenesisAllocations response recordIds =>
      obtain ⟨next_holds, adds⟩ := syncGenesisAllocations_addsNoneTo holds response recordIds
      exact ⟨next_holds, fun _ credited => adds.credited credited⟩

omit [Crypto H] [DecidableEq H] in
theorem holdsCredited_new (address : Address) (genesisBlockHash : H) :
    (LocalWalletDB.new address genesisBlockHash).HoldsCredited where
  once := fun _ ⟨_, member, _⟩ => absurd member List.not_mem_nil
  valid := fun _ member => absurd member List.not_mem_nil

/-- Whatever happens after an allocation was credited, its records hold its atoms once each, and no
sync adds to them. -/
theorem credited_once {address : Address} {genesisBlockHash : H}
    {calls later : List (AccountCall H)}
    (allowed : Along performAccount AllowedCall (.new address genesisBlockHash) (calls ++ later))
    (credited : Credited (calls.foldl performAccount (.new address genesisBlockHash)) allocation) :
    let db := (calls ++ later).foldl performAccount (.new address genesisBlockHash)
    db.Credited allocation ∧ db.HoldsOnce allocation ∧ ∀ response recordIds,
      ((db.syncGenesisAllocations response recordIds).2.anchoredRecords allocation).Perm
        (db.anchoredRecords allocation) := by
  intro db
  obtain ⟨earlier_allowed, later_allowed⟩ := along_append.mp allowed
  have holds := earlier_allowed.invariant
    (fun _ call holds allowed => (holdsCredited_performAccount call holds allowed).1)
    (holdsCredited_new address genesisBlockHash)
  have both : db.HoldsCredited ∧ db.Credited allocation := by
    have kept := later_allowed.invariant
      (fun (db : LocalWalletDB H) call (both : db.HoldsCredited ∧ db.Credited allocation) allowed =>
        have next := holdsCredited_performAccount call both.1 allowed
        ⟨next.1, next.2 allocation both.2⟩) ⟨holds, credited⟩
    rwa [← List.foldl_append] at kept
  exact ⟨both.2, both.1.once allocation both.2, fun response recordIds =>
    (syncGenesisAllocations_addsNoneTo both.1 response recordIds).2.same allocation both.2⟩

end Sync

end Credit

section Examples

open SymbolicDigest

/-- The consensus peers serve Alice one allocation. -/
def aliceAllocations : AllocationsResponse where
  ok := true
  error := none
  ownerAddr := alice.text
  allocations := [some (.ok (0, 9))]

/-- Alice syncs, and the middle of her allocation is spent. -/
def spentCalls : List (AccountCall SymbolicDigest) :=
  [.syncGenesisAllocations (.ok (some aliceAllocations)) fun _ => "coin",
    .sender (.applySenderConfirmedUnit (sentUnit middle) [middle] unaryIds)]

/-- An allocation whose middle was spent is not credited again. -/
theorem credited_once_spent :
    let db := spentCalls.foldl performAccount (.new alice (filled 0))
    db.Credited coin ∧ db.HoldsOnce coin ∧ ∀ response recordIds,
      ((db.syncGenesisAllocations response recordIds).2.anchoredRecords coin).Perm
        (db.anchoredRecords coin) := by
  have allowed : Along performAccount AllowedCall (.new alice (filled 0))
      (spentCalls.take 1 ++ spentCalls.drop 1) :=
    ⟨trivial, ⟨⟨freshIds_fundedWallet.injective, freshIds_fundedWallet.unused⟩, nofun⟩, trivial⟩
  exact credited_once allowed (by decide)

end Examples

end LocalWalletDB

end EZChain
