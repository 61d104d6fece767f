import EZChain.Wallet.Conservation

/-!
# Units that the sender applies

`apply_sender_confirmed_unit` archives what a confirmed bundle of the wallet has spent.  An outgoing
range is cut out of the records that contain it; a record that holds only a part of the range, or
that waits for another bundle, keeps it.
-/

namespace EZChain

open Checks Cover

namespace LocalWalletDB

variable {H : Type}

/-! ## What a unit does to one record -/

/-- The outgoing ranges that the record contains. -/
def containedTargets (outgoingValues : List ValueRange) (record : LocalValueRecord H) :
    List ValueRange :=
  (sortRanges outgoingValues).filter fun target => record.value.containsRange target

/-- The unit is appended to the record. -/
structure Touched (unit : ConfirmedBundleUnit H) (record : LocalValueRecord H) : Prop where
  live : Live record
  idle : record.localStatus ≠ .pendingBundle
  older : record.acquisitionHeight < unit.receipt.headerLite.height

theorem touched_iff {unit : ConfirmedBundleUnit H} {record : LocalValueRecord H} :
    Touched unit record ↔ Live record ∧ record.localStatus ≠ .pendingBundle ∧
      record.acquisitionHeight < unit.receipt.headerLite.height :=
  ⟨fun touched => ⟨touched.live, touched.idle, touched.older⟩,
    fun facts => ⟨facts.1, facts.2.1, facts.2.2⟩⟩

instance (unit : ConfirmedBundleUnit H) (record : LocalValueRecord H) :
    Decidable (Touched unit record) := decidable_of_iff _ touched_iff.symm

/-- The segments of a split record under consecutive ids. -/
def appliedGroup (address : Address) (unit : ConfirmedBundleUnit H) (recordIds : ℕ → String)
    (record : LocalValueRecord H) (segments : List (ValueRange × Bool)) (index : ℕ) :
    List (LocalValueRecord H) :=
  (segments.zipIdx index).map fun item =>
    appliedSegment address unit record (recordIds item.2) item.1

/-- What the unit makes of one record, and how many ids it draws. -/
def groupOf (address : Address) (unit : ConfirmedBundleUnit H) (outgoingValues : List ValueRange)
    (recordIds : ℕ → String) (record : LocalValueRecord H) (index : ℕ) :
    Except String (List (LocalValueRecord H) × ℕ) :=
  if ¬ Touched unit record then .ok ([record], 0)
  else if containedTargets outgoingValues record = [] then
    .ok ([appendToRecord unit .verifiedSpendable record], 0)
  else do
    let segments ← partitionRange record.value (containedTargets outgoingValues record)
    pure (appliedGroup address unit recordIds record segments index, segments.length)

/-- The record itself, the record with the unit, or its segments. -/
inductive AppliedInto (address : Address) (unit : ConfirmedBundleUnit H)
    (outgoingValues : List ValueRange) (recordIds : ℕ → String) (record : LocalValueRecord H) :
    List (LocalValueRecord H) → Prop
  | kept (untouched : ¬ Touched unit record) :
      AppliedInto address unit outgoingValues recordIds record [record]
  | whole (touched : Touched unit record) (unspent : containedTargets outgoingValues record = []) :
      AppliedInto address unit outgoingValues recordIds record
        [appendToRecord unit .verifiedSpendable record]
  | split (touched : Touched unit record) (segments : List (ValueRange × Bool)) (index : ℕ)
      (partitions : Partitions record.value.atoms (containedTargets outgoingValues record)
        segments) :
      AppliedInto address unit outgoingValues recordIds record
        (appliedGroup address unit recordIds record segments index)

section Apply

variable {address : Address} {unit : ConfirmedBundleUnit H} {outgoingValues : List ValueRange}
  {recordIds : ℕ → String}

theorem sortRanges_containedTargets (record : LocalValueRecord H) :
    sortRanges (containedTargets outgoingValues record) = containedTargets outgoingValues record :=
  ((List.pairwise_insertionSort rangeLe outgoingValues).filter _).insertionSort_eq

theorem mem_containedTargets {record : LocalValueRecord H} {target : ValueRange} :
    target ∈ containedTargets outgoingValues record ↔
      target ∈ outgoingValues ∧ record.value.containsRange target = true := by
  rw [containedTargets, List.mem_filter, mem_sortRanges]

/-- One turn of the record loop, when it is given no bundle. -/
theorem applyConfirmedUnitToRecords_cons (record : LocalValueRecord H)
    (rest : List (LocalValueRecord H)) (index : ℕ) :
    applyConfirmedUnitToRecords address unit outgoingValues [] [] recordIds (record :: rest) index =
      (do
        let (group, count) ← groupOf address unit outgoingValues recordIds record index
        let others ← applyConfirmedUnitToRecords address unit outgoingValues [] [] recordIds rest
          (index + count)
        pure (group ++ others)) := by
  have targets_eq : (sortRanges outgoingValues).filter
      (fun target => record.value.containsRange target) =
        containedTargets outgoingValues record := rfl
  rw [applyConfirmedUnitToRecords, groupOf]
  simp only [targets_eq, touched_iff, Live, List.not_mem_nil, if_false]
  by_cases archived : record.localStatus = .archived
  · rw [if_pos archived, if_pos fun touched => touched.1 archived]
    rfl
  by_cases pending : record.localStatus = .pendingBundle
  · rw [if_neg archived, if_pos pending, if_pos fun touched => touched.2.1 pending]
    rfl
  by_cases older : record.acquisitionHeight < unit.receipt.headerLite.height
  · rw [if_neg archived, if_neg pending, if_neg (Nat.not_le.mpr older),
      if_neg (not_not.mpr ⟨archived, pending, older⟩)]
    split
    · rfl
    · cases partitionRange record.value (containedTargets outgoingValues record) <;> rfl
  · rw [if_neg archived, if_neg pending, if_pos (Nat.not_lt.mp older),
      if_pos fun touched => older touched.2.2]
    rfl

/-- A group keeps the id of its record or draws fresh ones. -/
theorem groupOf_appliedInto {record : LocalValueRecord H} {group : List (LocalValueRecord H)}
    {index count : ℕ}
    (grouped : groupOf address unit outgoingValues recordIds record index = .ok (group, count)) :
    AppliedInto address unit outgoingValues recordIds record group ∧
      (group.map LocalValueRecord.recordId = [record.recordId] ∧ count = 0 ∨
        group.map LocalValueRecord.recordId = (List.range' index count).map recordIds) := by
  rw [groupOf] at grouped
  split at grouped
  next untouched =>
    cases grouped
    exact ⟨.kept untouched, .inl ⟨rfl, rfl⟩⟩
  next touched =>
    split at grouped
    next unspent =>
      cases grouped
      exact ⟨.whole (not_not.mp touched) unspent, .inl ⟨rfl, rfl⟩⟩
    · simp only [bind_eq_ok, pure_eq_ok, Prod.mk.injEq] at grouped
      obtain ⟨segments, partitioned, rfl, rfl⟩ := grouped
      have partitions := partitionRange_partitions partitioned
      rw [sortRanges_containedTargets] at partitions
      refine ⟨.split (not_not.mp touched) segments index partitions, .inr ?_⟩
      rw [appliedGroup, List.map_map, ← List.zipIdx_map_snd index segments, List.map_map]
      rfl

theorem exists_groupOf_iff (record : LocalValueRecord H) (index : ℕ) :
    (∃ group count, groupOf address unit outgoingValues recordIds record index =
      .ok (group, count)) ↔
        (Touched unit record →
          Apart ValueRange.atoms (containedTargets outgoingValues record)) := by
  have inside : ∀ target ∈ containedTargets outgoingValues record,
      record.value.containsRange target = true :=
    fun target member => (mem_containedTargets.mp member).2
  rw [groupOf]
  split
  next untouched => exact iff_of_true ⟨_, _, rfl⟩ fun touched => absurd touched untouched
  next touched =>
    rw [imp_iff_right (not_not.mp touched), ← exists_partitionRange_iff inside]
    split
    next unspent =>
      rw [unspent]
      exact iff_of_true ⟨_, _, rfl⟩ ⟨_, rfl⟩
    · simp only [bind_eq_ok, pure_eq_ok, Prod.mk.injEq]
      constructor
      · rintro ⟨_, _, segments, partitioned, _⟩
        exact ⟨segments, partitioned⟩
      · rintro ⟨segments, partitioned⟩
        exact ⟨_, _, segments, partitioned, rfl, rfl⟩

/-- The record loop replaces every record by what the unit makes of it, and draws the ids of the
segments one after another. -/
theorem applyConfirmedUnitToRecords_groups {records updated : List (LocalValueRecord H)}
    {index : ℕ} (applied : applyConfirmedUnitToRecords address unit outgoingValues [] [] recordIds
      records index = .ok updated) :
    ∃ groups kept count, List.Forall₂ (AppliedInto address unit outgoingValues recordIds) records
        groups ∧ updated = groups.flatten ∧
      kept.Sublist (records.map LocalValueRecord.recordId) ∧
      (updated.map LocalValueRecord.recordId).Perm
        ((List.range' index count).map recordIds ++ kept) := by
  induction records generalizing index updated with
  | nil =>
      cases applied
      exact ⟨[], [], 0, .nil, rfl, .slnil, .refl _⟩
  | cons record rest induction =>
      simp only [applyConfirmedUnitToRecords_cons, bind_eq_ok, pure_eq_ok, Prod.exists] at applied
      obtain ⟨group, drawn, grouped, others, rest_applied, rfl⟩ := applied
      obtain ⟨into, ids_eq⟩ := groupOf_appliedInto grouped
      obtain ⟨groups, kept, count, rest_into, rfl, sublist, perm⟩ := induction rest_applied
      rcases ids_eq with ⟨ids_eq, rfl⟩ | ids_eq
      · refine ⟨group :: groups, record.recordId :: kept, count, .cons into rest_into, rfl,
          sublist.cons_cons _, ?_⟩
        rw [List.map_append, ids_eq, List.singleton_append]
        exact (perm.cons _).trans List.perm_middle.symm
      · refine ⟨group :: groups, kept, drawn + count, .cons into rest_into, rfl, sublist.cons _, ?_⟩
        rw [List.map_append, ids_eq, ← List.range'_append, List.map_append, List.append_assoc,
          Nat.one_mul]
        exact perm.append_left _

/-- The record loop succeeds exactly when no touched record contains outgoing ranges that share an
atom. -/
theorem exists_applyConfirmedUnitToRecords_iff (records : List (LocalValueRecord H)) (index : ℕ) :
    (∃ updated, applyConfirmedUnitToRecords address unit outgoingValues [] [] recordIds records
      index = .ok updated) ↔ ∀ record ∈ records, Touched unit record →
        Apart ValueRange.atoms (containedTargets outgoingValues record) := by
  induction records generalizing index with
  | nil => exact iff_of_true ⟨[], rfl⟩ nofun
  | cons record rest induction =>
      simp only [applyConfirmedUnitToRecords_cons, bind_eq_ok, pure_eq_ok, Prod.exists]
      rw [List.forall_mem_cons, ← exists_groupOf_iff record index]
      constructor
      · rintro ⟨_, group, count, grouped, others, rest_applied, _⟩
        exact ⟨⟨group, count, grouped⟩, (induction (index + count)).mp ⟨others, rest_applied⟩⟩
      · rintro ⟨⟨group, count, grouped⟩, rest_apart⟩
        obtain ⟨others, rest_applied⟩ := (induction (index + count)).mpr rest_apart
        exact ⟨_, group, count, grouped, others, rest_applied, rfl⟩

/-! ## Atoms of a group -/

namespace AppliedInto

variable {record : LocalValueRecord H} {group : List (LocalValueRecord H)}

theorem acquisitionHeight_eq
    (into : AppliedInto address unit outgoingValues recordIds record group)
    {item : LocalValueRecord H} (member : item ∈ group) :
    item.acquisitionHeight = record.acquisitionHeight := by
  cases into with
  | kept untouched => rw [List.mem_singleton.mp member]
  | whole touched unspent =>
      rw [List.mem_singleton.mp member]
      rfl
  | split touched segments index partitions =>
      obtain ⟨named, _, rfl⟩ := List.mem_map.mp member
      rfl

/-- The items of a group cover what the record covers, and overlap nowhere. -/
theorem cover_eq_and_apart
    (into : AppliedInto address unit outgoingValues recordIds record group) :
    cover recordAtoms group = recordAtoms record ∧ Apart recordAtoms group := by
  cases into with
  | kept untouched => exact ⟨Finset.union_empty _, List.pairwise_singleton _ _⟩
  | whole touched unspent => exact ⟨Finset.union_empty _, List.pairwise_singleton _ _⟩
  | split touched segments index partitions =>
      exact cover_and_apart_of_partitions partitions (fun _ => rfl) index

/-- A live item holds an atom of the record unless an outgoing range inside the record does. -/
theorem exists_live_iff (into : AppliedInto address unit outgoingValues recordIds record group)
    (atom : ℕ) :
    (∃ item ∈ group, Live item ∧ atom ∈ recordAtoms item) ↔
      Live record ∧ atom ∈ recordAtoms record ∧ (Touched unit record →
        ∀ target ∈ containedTargets outgoingValues record, atom ∉ target.atoms) := by
  cases into with
  | kept untouched => simp [untouched]
  | whole touched unspent =>
      have live : Live (appendToRecord unit .verifiedSpendable record) := nofun
      have atoms_eq : recordAtoms (appendToRecord unit .verifiedSpendable record) =
          recordAtoms record := rfl
      simp [unspent, live, atoms_eq, touched.live]
  | split touched segments index partitions =>
      have apart : Apart (fun segment : ValueRange × Bool => segment.1.atoms) segments :=
        (apart_map Prod.fst segments).mp partitions.ordered.apart
      have exists_segment : (∃ item ∈ appliedGroup address unit recordIds record segments index,
          Live item ∧ atom ∈ recordAtoms item) ↔
            ∃ segment ∈ segments, segment.2 = false ∧ atom ∈ segment.1.atoms := by
        constructor
        · rintro ⟨item, member, live, inside⟩
          obtain ⟨named, named_mem, rfl⟩ := List.mem_map.mp member
          refine ⟨named.1, ?_, ?_, inside⟩
          · rw [← List.zipIdx_map_fst index segments]
            exact List.mem_map_of_mem named_mem
          · by_contra outgoing
            exact live (if_pos (Bool.not_eq_false _ ▸ outgoing))
        · rintro ⟨segment, member, kept, inside⟩
          rw [← List.zipIdx_map_fst index segments] at member
          obtain ⟨named, named_mem, rfl⟩ := List.mem_map.mp member
          refine ⟨_, List.mem_map_of_mem named_mem, ?_, inside⟩
          simp [Live, appliedSegment, kept]
      have target_iff : (∃ target ∈ containedTargets outgoingValues record, atom ∈ target.atoms) ↔
          ∃ segment ∈ segments, segment.2 = true ∧ atom ∈ segment.1.atoms := by
        rw [← partitions.marked]
        simp
      rw [exists_segment, iff_true_intro touched.live, imp_iff_right touched, true_and]
      constructor
      · rintro ⟨segment, member, kept, inside⟩
        constructor
        · rw [recordAtoms, ← partitions.covered]
          exact mem_cover.mpr ⟨segment, member, inside⟩
        · intro target target_mem in_target
          obtain ⟨other, other_mem, outgoing, other_inside⟩ :=
            target_iff.mp ⟨target, target_mem, in_target⟩
          obtain rfl := apart.eq_of_mem member other_mem inside other_inside
          rw [kept] at outgoing
          cases outgoing
      · rintro ⟨inside, unspent⟩
        rw [recordAtoms, ← partitions.covered] at inside
        obtain ⟨segment, member, in_segment⟩ := mem_cover.mp inside
        refine ⟨segment, member, ?_, in_segment⟩
        by_contra outgoing
        obtain ⟨target, target_mem, in_target⟩ :=
          target_iff.mpr ⟨segment, member, Bool.not_eq_false _ ▸ outgoing, in_segment⟩
        exact unspent target target_mem in_target

end AppliedInto

end Apply

/-! ## Applying a unit -/

section Execute

variable [Crypto H] [DecidableEq H] {db : LocalWalletDB H} (unit : ConfirmedBundleUnit H)
  (outgoingValues : List ValueRange)

/-- The outgoing ranges inside one touched record share no atom. -/
def Cuttable (db : LocalWalletDB H) (unit : ConfirmedBundleUnit H)
    (outgoingValues : List ValueRange) : Prop :=
  ∀ record ∈ db.records, Touched unit record →
    Apart ValueRange.atoms (containedTargets outgoingValues record)

/-- Applying a unit replaces every record by what the unit makes of it, or raises. -/
theorem execute_applySenderConfirmedUnit {recordIds : ℕ → String} (fresh : db.FreshIds recordIds) :
    (db.Cuttable unit outgoingValues ∧ ∃ groups nodup,
      List.Forall₂ (AppliedInto db.address unit outgoingValues recordIds) db.records groups ∧
        (db.execute (db.applySenderConfirmedUnit unit outgoingValues recordIds)).2 =
          db.withRecords groups.flatten nodup) ∨
    ¬ db.Cuttable unit outgoingValues ∧
      (db.execute (db.applySenderConfirmedUnit unit outgoingValues recordIds)).2 = db := by
  have succeeds : (∃ updated, applyConfirmedUnitToRecords db.address unit outgoingValues [] []
      recordIds db.records 0 = .ok updated) ↔ db.Cuttable unit outgoingValues :=
    exists_applyConfirmedUnitToRecords_iff db.records 0
  cases applied : applyConfirmedUnitToRecords db.address unit outgoingValues [] [] recordIds
      db.records 0 with
  | error message =>
      refine .inr ⟨fun cuttable => ?_, ?_⟩
      · obtain ⟨updated, updated_eq⟩ := succeeds.mpr cuttable
        rw [applied] at updated_eq
        cases updated_eq
      · rw [applySenderConfirmedUnit, applied]
        rfl
  | ok updated =>
      obtain ⟨groups, kept, count, into, rfl, sublist, perm⟩ :=
        applyConfirmedUnitToRecords_groups applied
      have nodup := fresh.nodup_of_perm sublist perm
      refine .inl ⟨succeeds.mp ⟨_, applied⟩, groups, nodup, into, ?_⟩
      have planned : db.applySenderConfirmedUnit unit outgoingValues recordIds =
          .ok (groups.flatten.insertionSort WalletAccountV2.recordLe,
            [.replaceValueRecords groups.flatten]) := by
        rw [applySenderConfirmedUnit, applied]
        rfl
      rw [execute_snd_of_ok planned, commitAll_cons (commit_replaceValueRecords nodup)]
      rfl

/-- A call of the wallet, or the application of a unit that the sender knows to be confirmed. -/
inductive SenderCall (H : Type) where
  | wallet (call : WalletCall H)
  | applySenderConfirmedUnit (unit : ConfirmedBundleUnit H) (outgoingValues : List ValueRange)
      (recordIds : ℕ → String)

/-- The database after a call, which may raise. -/
def performSender (db : LocalWalletDB H) : SenderCall H → LocalWalletDB H
  | .wallet call => db.perform call
  | .applySenderConfirmedUnit unit outgoingValues recordIds =>
      (db.execute (db.applySenderConfirmedUnit unit outgoingValues recordIds)).2

/-- The record ids that a call generates are fresh. -/
def FreshSenderCall (db : LocalWalletDB H) : SenderCall H → Prop
  | .wallet (.buildBundle call) => db.FreshIds call.recordIds
  | .wallet _ => True
  | .applySenderConfirmedUnit _ _ recordIds => db.FreshIds recordIds

/-- No live record acquired before the unit holds an outgoing atom, and all other atoms of live
records are still in live records. -/
structure SpentRemoved (db next : LocalWalletDB H) (unit : ConfirmedBundleUnit H)
    (outgoingValues : List ValueRange) : Prop where
  removed : ∀ record ∈ next.records, Live record →
    record.acquisitionHeight < unit.receipt.headerLite.height →
      Disjoint (recordAtoms record) (cover ValueRange.atoms outgoingValues)
  kept : ∀ record ∈ db.records, Live record → ∀ atom ∈ recordAtoms record,
    (atom ∉ cover ValueRange.atoms outgoingValues ∨
      unit.receipt.headerLite.height ≤ record.acquisitionHeight) →
        ∃ other ∈ next.records, Live other ∧ atom ∈ recordAtoms other

/-- No older record that waits for a bundle holds an outgoing atom, each outgoing atom in an older
live record belongs to an outgoing range inside it, and such ranges share no atom. -/
structure Attributed (db : LocalWalletDB H) (unit : ConfirmedBundleUnit H)
    (outgoingValues : List ValueRange) : Prop where
  contained : ∀ record ∈ db.records, Live record →
    record.acquisitionHeight < unit.receipt.headerLite.height → ∀ atom ∈ recordAtoms record,
      atom ∈ cover ValueRange.atoms outgoingValues → record.localStatus ≠ .pendingBundle ∧
        ∃ target ∈ outgoingValues, record.value.containsRange target = true ∧ atom ∈ target.atoms
  cuttable : db.Cuttable unit outgoingValues

/-- A unit removes what it spent exactly when every spent atom is attributed to a record. -/
theorem spentRemoved_iff_attributed {recordIds : ℕ → String} (fresh : db.FreshIds recordIds) :
    SpentRemoved db (db.execute (db.applySenderConfirmedUnit unit outgoingValues recordIds)).2 unit
      outgoingValues ↔ db.Attributed unit outgoingValues := by
  rcases execute_applySenderConfirmedUnit unit outgoingValues fresh with
    ⟨cuttable, groups, nodup, into, next_eq⟩ | ⟨stuck, next_eq⟩
  · rw [next_eq]
    constructor
    · intro spent
      refine ⟨fun record member live older atom inside outgoing => ?_, cuttable⟩
      by_contra unattributed
      obtain ⟨group, group_mem, applied⟩ := Checks.exists_related into member
      -- Otherwise an item of the record's group is live and still holds the atom.
      obtain ⟨item, item_mem, item_live, in_item⟩ := (applied.exists_live_iff atom).mpr
        ⟨live, inside, fun touched target target_mem in_target => unattributed ⟨touched.idle,
          target, (mem_containedTargets.mp target_mem).1, (mem_containedTargets.mp target_mem).2,
          in_target⟩⟩
      have stored : item ∈ (db.withRecords groups.flatten nodup).records :=
        mem_records_withRecords.mpr (List.mem_flatten_of_mem group_mem item_mem)
      have disjoint := spent.removed item stored item_live
        ((applied.acquisitionHeight_eq item_mem).trans_lt older)
      exact Finset.disjoint_left.mp disjoint in_item outgoing
    · intro attributed
      constructor
      · intro item stored item_live older
        obtain ⟨record, member, group, applied, item_mem⟩ :=
          exists_item into (mem_records_withRecords.mp stored)
        rw [applied.acquisitionHeight_eq item_mem] at older
        refine Finset.disjoint_left.mpr fun atom in_item outgoing => ?_
        obtain ⟨live, inside, unspent⟩ := (applied.exists_live_iff atom).mp
          ⟨item, item_mem, item_live, in_item⟩
        obtain ⟨idle, target, target_mem, contains, in_target⟩ :=
          attributed.contained record member live older atom inside outgoing
        exact unspent ⟨live, idle, older⟩ target
          (mem_containedTargets.mpr ⟨target_mem, contains⟩) in_target
      · intro record member live atom inside unspent
        obtain ⟨group, group_mem, applied⟩ := Checks.exists_related into member
        obtain ⟨item, item_mem, item_live, in_item⟩ := (applied.exists_live_iff atom).mpr
          ⟨live, inside, fun touched target target_mem in_target => by
            rcases unspent with outside | late
            · exact outside (mem_cover.mpr
                ⟨target, (mem_containedTargets.mp target_mem).1, in_target⟩)
            · exact absurd touched.older (Nat.not_lt.mpr late)⟩
        exact ⟨item, mem_records_withRecords.mpr (List.mem_flatten_of_mem group_mem item_mem),
          item_live, in_item⟩
  · rw [next_eq]
    refine iff_of_false (fun spent => stuck ?_) fun attributed => stuck attributed.cuttable
    -- A touched record that contains an outgoing range still holds its first atom.
    intro record member touched
    have uncut : containedTargets outgoingValues record = [] := by
      refine List.eq_nil_iff_forall_not_mem.mpr fun target target_mem => ?_
      obtain ⟨outgoing, contains⟩ := mem_containedTargets.mp target_mem
      rw [ValueRange.containsRange_iff] at contains
      have ends := target.begin_le_end
      have inside : target.valueBegin ∈ recordAtoms record :=
        ValueRange.mem_atoms.mpr ⟨contains.1, ends.trans contains.2⟩
      have covered : target.valueBegin ∈ cover ValueRange.atoms outgoingValues :=
        mem_cover.mpr ⟨target, outgoing, ValueRange.mem_atoms.mpr ⟨le_rfl, ends⟩⟩
      exact Finset.disjoint_left.mp (spent.removed record member touched.live touched.older) inside
        covered
    rw [uncut]
    exact apart_nil

end Execute

section Examples

open SymbolicDigest

/-- A unit that confirms Alice's transfer of a range. -/
def sentUnit (range : ValueRange) : ConfirmedBundleUnit SymbolicDigest where
  receipt :=
    { headerLite := ⟨1, filled 1, filled 2⟩
      seq := 1
      prevRef := none
      claimSetHash := none
      proof := .batchRef ⟨⟨1, filled 1⟩, computeAddrKey SymbolicDigest alice⟩
      seq_pos := Nat.one_pos }
  bundleSidecar := transferBundle alice bob range

/-- The middle of a value is cut out of its record. -/
theorem spentRemoved_middle :
    SpentRemoved fundedWallet (fundedWallet.execute (fundedWallet.applySenderConfirmedUnit
      (sentUnit middle) [middle] unaryIds)).2 (sentUnit middle) [middle] := by
  refine (spentRemoved_iff_attributed (sentUnit middle) [middle] freshIds_fundedWallet).mpr ⟨?_, ?_⟩
  · intro record member _ _ atom _ outgoing
    obtain rfl := List.mem_singleton.mp member
    obtain ⟨target, target_mem, inside⟩ := mem_cover.mp outgoing
    obtain rfl := List.mem_singleton.mp target_mem
    exact ⟨nofun, _, target_mem, by decide, inside⟩
  · intro record member _
    obtain rfl := List.mem_singleton.mp member
    exact List.pairwise_singleton _ _

/-- Two adjacent ranges. -/
abbrev lowHalf : ValueRange := ⟨1, 4, by decide⟩

@[inherit_doc lowHalf]
abbrev highHalf : ValueRange := ⟨5, 9, by decide⟩

/-- Alice's wallet with two adjacent genesis values. -/
def halvesWallet : LocalWalletDB SymbolicDigest :=
  ((LocalWalletDB.new alice (filled 0)).perform (.addGenesisValue lowHalf "low")).perform
    (.addGenesisValue highHalf "high")

/-- A range that lies in neither of two records. -/
abbrev straddling : ValueRange := ⟨3, 7, by decide⟩

/-- A range that spans two records stays in both. -/
theorem not_spentRemoved_straddling :
    halvesWallet.LiveApart ∧ (sentUnit straddling).bundleSidecar.senderAddr = halvesWallet.address ∧
      ¬ SpentRemoved halvesWallet (halvesWallet.execute (halvesWallet.applySenderConfirmedUnit
        (sentUnit straddling) [straddling] unaryIds)).2 (sentUnit straddling) [straddling] := by
  refine ⟨?_, rfl, fun spent => ?_⟩
  · apply List.pairwise_pair.mpr
    exact Finset.disjoint_left.mpr (by decide)
  · have disjoint := spent.removed _ List.mem_cons_self (by decide) (by decide)
    exact absurd disjoint (by decide)

end Examples

end LocalWalletDB

end EZChain
