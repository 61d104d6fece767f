import EZChain.Library.Cover
import EZChain.Wallet.Bundles
import Mathlib.Data.List.Forall2
import Mathlib.Order.Interval.Finset.Nat

/-!
# Splitting records

A partition of a range into its targets and the gaps between them covers the range and overlaps
nowhere.  A bundle therefore splits the records that cover its targets without losing an atom, and
the marked segments are the targets.
-/

namespace EZChain

open Checks Cover

/-! ## Partitions -/

namespace ValueRange

/-- The atoms of a range. -/
def atoms (range : ValueRange) : Finset ℕ := Finset.Icc range.valueBegin range.valueEnd

@[simp]
theorem mem_atoms {range : ValueRange} {atom : ℕ} :
    atom ∈ range.atoms ↔ range.valueBegin ≤ atom ∧ atom ≤ range.valueEnd := Finset.mem_Icc

theorem card_atoms (range : ValueRange) : range.atoms.card = range.size := by
  have ends := range.begin_le_end
  rw [atoms, Nat.card_Icc, size]
  omega

theorem disjoint_atoms_iff {left right : ValueRange} :
    Disjoint left.atoms right.atoms ↔ left.intersects right = false := by
  rw [← Bool.not_eq_true, intersects_iff_exists, Finset.disjoint_left]
  simp

end ValueRange

/-- The ranges lie one after another. -/
def InOrder (ranges : List ValueRange) : Prop :=
  ranges.Pairwise fun left right => left.valueEnd < right.valueBegin

/-- Sorted ranges without intersecting neighbours lie one after another. -/
theorem inOrder_sortRanges {ranges : List ValueRange}
    (apart : neighboursIntersect (sortRanges ranges) = false) : InOrder (sortRanges ranges) := by
  have chained : ∀ ordered : List ValueRange, ordered.Pairwise rangeLe →
      neighboursIntersect ordered = false → InOrder ordered := by
    intro ordered sorted
    induction ordered with
    | nil => exact fun _ => .nil
    | cons first rest induction =>
        intro neighbours
        cases rest with
        | nil => exact List.pairwise_singleton _ _
        | cons second rest =>
            obtain ⟨first_le, rest_sorted⟩ := List.pairwise_cons.mp sorted
            have first_le_second := first_le second List.mem_cons_self
            simp only [neighboursIntersect, List.tail_cons, List.zip_cons_cons, List.any_cons,
              Bool.or_eq_false_iff] at neighbours
            obtain ⟨first_apart, rest_apart⟩ := neighbours
            have rest_ordered : InOrder (second :: rest) := induction rest_sorted rest_apart
            have second_ends := second.begin_le_end
            have before_second : first.valueEnd < second.valueBegin := by
              rw [← Bool.not_eq_true, ValueRange.intersects_iff] at first_apart
              simp only [rangeLe] at first_le_second
              omega
            refine List.pairwise_cons.mpr ⟨fun other member => ?_, rest_ordered⟩
            rcases List.mem_cons.mp member with rfl | member
            · exact before_second
            · have after_second := (List.pairwise_cons.mp rest_ordered).1 other member
              omega
  exact chained _ (List.pairwise_insertionSort rangeLe ranges) apart

theorem mem_sortRanges {ranges : List ValueRange} {range : ValueRange} :
    range ∈ sortRanges ranges ↔ range ∈ ranges :=
  (List.perm_insertionSort rangeLe ranges).mem_iff

theorem InOrder.apart {ranges : List ValueRange} (ordered : InOrder ranges) :
    Apart ValueRange.atoms ranges := by
  refine List.Pairwise.imp ?_ ordered
  intro left right before
  rw [ValueRange.disjoint_atoms_iff, ← Bool.not_eq_true, ValueRange.intersects_iff]
  omega

/-- Ranges that lie one after another are sorted. -/
theorem sortRanges_of_inOrder {ranges : List ValueRange} (ordered : InOrder ranges) :
    sortRanges ranges = ranges := by
  have sorted : ranges.Pairwise rangeLe := by
    refine List.Pairwise.imp ?_ ordered
    intro left right before
    have left_ends := left.begin_le_end
    rw [rangeLe]
    omega
  exact sorted.insertionSort_eq

theorem not_intersects_of_before {left right : ValueRange}
    (before : left.valueEnd < right.valueBegin) : left.intersects right = false := by
  rw [← Bool.not_eq_true, ValueRange.intersects_iff]
  omega

/-- Ranges that lie one after another have no intersecting neighbours. -/
theorem neighboursIntersect_of_inOrder {ranges : List ValueRange} (ordered : InOrder ranges) :
    neighboursIntersect ranges = false := by
  induction ranges with
  | nil => rfl
  | cons first rest induction =>
      cases rest with
      | nil => rfl
      | cons second rest =>
          obtain ⟨first_before, rest_ordered⟩ := List.pairwise_cons.mp ordered
          have apart := not_intersects_of_before (first_before second List.mem_cons_self)
          have rest_apart := induction rest_ordered
          simp only [neighboursIntersect, List.tail_cons] at rest_apart ⊢
          rw [List.zip_cons_cons, List.any_cons, apart, rest_apart]
          rfl

theorem neighboursIntersect_sortRanges_iff (ranges : List ValueRange) :
    neighboursIntersect (sortRanges ranges) = false ↔ Apart ValueRange.atoms ranges := by
  rw [← apart_perm (List.perm_insertionSort rangeLe ranges)]
  refine ⟨fun separate => (inOrder_sortRanges separate).apart, fun apart => ?_⟩
  have sorted : (sortRanges ranges).Pairwise rangeLe := List.pairwise_insertionSort rangeLe ranges
  refine neighboursIntersect_of_inOrder ((sorted.and apart).imp ?_)
  rintro left right ⟨le, disjoint⟩
  have ends := right.begin_le_end
  rw [ValueRange.disjoint_atoms_iff, ← Bool.not_eq_true, ValueRange.intersects_iff] at disjoint
  simp only [rangeLe] at le
  omega

theorem exists_partitionRange_iff_inside {source : ValueRange} {targets : List ValueRange} :
    (∃ segments, partitionRange source targets = .ok segments) ↔
      (∀ target ∈ targets, source.containsRange target = true) ∧
        Apart ValueRange.atoms targets := by
  rw [← neighboursIntersect_sortRanges_iff, partitionRange]
  split
  next empty =>
    subst empty
    exact iff_of_true ⟨_, rfl⟩ ⟨List.forall_mem_nil _, rfl⟩
  · simp only [bind_eq_ok, require_eq_ok, exists_const, pure_eq_ok, mem_sortRanges]
    constructor
    · rintro ⟨segments, inside, apart, _⟩
      exact ⟨inside, apart⟩
    · rintro ⟨inside, apart⟩
      exact ⟨_, inside, apart, rfl⟩

theorem exists_partitionRange_iff {source : ValueRange} {targets : List ValueRange}
    (inside : ∀ target ∈ targets, source.containsRange target = true) :
    (∃ segments, partitionRange source targets = .ok segments) ↔
      Apart ValueRange.atoms targets :=
  exists_partitionRange_iff_inside.trans (and_iff_right inside)

theorem exists_partitionRange {source : ValueRange} {targets : List ValueRange}
    (ordered : InOrder targets)
    (inside : ∀ target ∈ targets, source.containsRange target = true) :
    ∃ segments, partitionRange source targets = .ok segments :=
  (exists_partitionRange_iff inside).mpr ordered.apart

/-- The segments of a partition: they lie in order, they cover the range, and the marked ones are
the targets. -/
structure Partitions (source : Finset ℕ) (targets : List ValueRange)
    (segments : List (ValueRange × Bool)) : Prop where
  ordered : InOrder (segments.map Prod.fst)
  covered : cover (fun segment => segment.1.atoms) segments = source
  marked : (segments.filter Prod.snd).map Prod.fst = targets

/-- The segment loop partitions what is left of the range after the cursor. -/
theorem partitionFrom_partitions (cursor valueEnd : ℕ) {targets : List ValueRange}
    (ordered : InOrder targets)
    (inside : ∀ target ∈ targets, cursor ≤ target.valueBegin ∧ target.valueEnd ≤ valueEnd) :
    Partitions (Finset.Icc cursor valueEnd) targets (partitionFrom cursor valueEnd targets) := by
  induction targets generalizing cursor with
  | nil =>
      simp only [partitionFrom, gapBetween]
      split
      · exact
          { ordered := List.pairwise_singleton _ _
            covered := Finset.union_empty _
            marked := rfl }
      · next empty =>
          exact
            { ordered := .nil
              covered := (Finset.Icc_eq_empty empty).symm
              marked := rfl }
  | cons target targets induction =>
      obtain ⟨before_rest, rest_ordered⟩ := List.pairwise_cons.mp ordered
      obtain ⟨⟨cursor_le, end_le⟩, rest_inside⟩ := List.forall_mem_cons.mp inside
      have ends := target.begin_le_end
      have rest := induction (target.valueEnd + 1) rest_ordered fun other member =>
        ⟨before_rest other member, (rest_inside other member).2⟩
      -- Everything after the target starts behind it.
      have rest_after :
          ∀ range ∈ (partitionFrom (target.valueEnd + 1) valueEnd targets).map Prod.fst,
            target.valueEnd < range.valueBegin := by
        intro range member
        obtain ⟨segment, segment_mem, rfl⟩ := List.mem_map.mp member
        have covered : segment.1.valueBegin ∈ Finset.Icc (target.valueEnd + 1) valueEnd := by
          rw [← rest.covered]
          exact mem_cover.mpr ⟨segment, segment_mem,
            ValueRange.mem_atoms.mpr ⟨le_rfl, segment.1.begin_le_end⟩⟩
        exact (Finset.mem_Icc.mp covered).1
      have tail_ordered : InOrder
          (target :: (partitionFrom (target.valueEnd + 1) valueEnd targets).map Prod.fst) :=
        List.pairwise_cons.mpr ⟨rest_after, rest.ordered⟩
      have tail_covered : target.atoms ∪ Finset.Icc (target.valueEnd + 1) valueEnd =
          Finset.Icc target.valueBegin valueEnd := by
        ext atom
        simp only [Finset.mem_union, ValueRange.mem_atoms, Finset.mem_Icc]
        omega
      simp only [partitionFrom, gapBefore]
      split
      · next gap =>
          constructor
          · refine List.pairwise_cons.mpr ⟨fun range member => ?_, tail_ordered⟩
            rcases List.mem_cons.mp member with rfl | member
            · show range.valueBegin - 1 < range.valueBegin
              omega
            · have after := rest_after range member
              show target.valueBegin - 1 < range.valueBegin
              omega
          · rw [List.singleton_append, cover_cons, cover_cons, rest.covered, tail_covered]
            ext atom
            simp only [Finset.mem_union, ValueRange.mem_atoms, Finset.mem_Icc]
            omega
          · simp [rest.marked]
      · next adjacent =>
          have cursor_eq : cursor = target.valueBegin := by omega
          subst cursor_eq
          constructor
          · exact tail_ordered
          · rw [List.nil_append, cover_cons, rest.covered, tail_covered]
          · simp [rest.marked]

/-- A partition that succeeds covers the range, and its marked segments are the sorted targets. -/
theorem partitionRange_partitions {source : ValueRange} {targets : List ValueRange}
    {segments : List (ValueRange × Bool)}
    (partitioned : partitionRange source targets = .ok segments) :
    Partitions source.atoms (sortRanges targets) segments := by
  rw [partitionRange] at partitioned
  split at partitioned
  · next empty =>
      cases partitioned
      subst empty
      exact
        { ordered := List.pairwise_singleton _ _
          covered := Finset.union_empty _
          marked := rfl }
  · simp only [bind_eq_ok, require_eq_ok, exists_const, pure_eq_ok] at partitioned
    obtain ⟨contained, apart, rfl⟩ := partitioned
    exact partitionFrom_partitions _ _ (inOrder_sortRanges apart) fun target member =>
      (ValueRange.containsRange_iff _ _).mp (contained target member)

/-! ## Exact partitions -/

/-- The ranges follow one another from a cursor to an end, without a gap. -/
def Tiles : ℕ → ℕ → List ValueRange → Prop
  | cursor, valueEnd, [] => cursor = valueEnd + 1
  | cursor, valueEnd, range :: rest =>
      range.valueBegin = cursor ∧ Tiles (range.valueEnd + 1) valueEnd rest

theorem tiles_gapBetween {cursor valueEnd : ℕ} (within : cursor ≤ valueEnd + 1) :
    Tiles cursor valueEnd ((gapBetween cursor valueEnd).map Prod.fst) := by
  rw [gapBetween]
  split
  · exact ⟨rfl, rfl⟩
  · next empty =>
      have at_end : cursor = valueEnd + 1 := by omega
      exact at_end

theorem tiles_gapBefore {cursor valueEnd : ℕ} {target : ValueRange} {segments : List ValueRange}
    (cursor_le : cursor ≤ target.valueBegin) (tiles : Tiles target.valueBegin valueEnd segments) :
    Tiles cursor valueEnd ((gapBefore cursor target).map Prod.fst ++ segments) := by
  rw [gapBefore]
  split
  · next gap =>
      have next_eq : target.valueBegin - 1 + 1 = target.valueBegin := by omega
      exact ⟨rfl, next_eq.symm ▸ tiles⟩
  · next adjacent =>
      have cursor_eq : cursor = target.valueBegin := by omega
      rw [cursor_eq]
      exact tiles

theorem tiles_partitionFrom {cursor valueEnd : ℕ} {targets : List ValueRange}
    (within : cursor ≤ valueEnd + 1) (ordered : InOrder targets)
    (inside : ∀ target ∈ targets, cursor ≤ target.valueBegin ∧ target.valueEnd ≤ valueEnd) :
    Tiles cursor valueEnd ((partitionFrom cursor valueEnd targets).map Prod.fst) := by
  induction targets generalizing cursor with
  | nil => exact tiles_gapBetween within
  | cons target targets induction =>
      obtain ⟨before_rest, rest_ordered⟩ := List.pairwise_cons.mp ordered
      obtain ⟨⟨cursor_le, end_le⟩, rest_inside⟩ := List.forall_mem_cons.mp inside
      have rest := induction (Nat.succ_le_succ end_le) rest_ordered fun other member =>
        ⟨before_rest other member, (rest_inside other member).2⟩
      rw [partitionFrom, List.map_append, List.map_cons]
      exact tiles_gapBefore cursor_le ⟨rfl, rest⟩

/-- A partition of a range is exact: the segments lie in order and without a gap between its ends,
they have its atoms, and the marked ones are the targets. -/
structure PartitionsExactly (source : ValueRange) (targets : List ValueRange)
    (segments : List (ValueRange × Bool)) : Prop where
  ordered : InOrder (segments.map Prod.fst)
  contiguous : Tiles source.valueBegin source.valueEnd (segments.map Prod.fst)
  covered : cover (fun segment => segment.1.atoms) segments = source.atoms
  outgoing : ((segments.filter Prod.snd).map Prod.fst).Perm targets

theorem tiles_partitionRange {source : ValueRange} {targets : List ValueRange}
    {segments : List (ValueRange × Bool)}
    (partitioned : partitionRange source targets = .ok segments) :
    Tiles source.valueBegin source.valueEnd (segments.map Prod.fst) := by
  rw [partitionRange] at partitioned
  split at partitioned
  · cases partitioned
    exact ⟨rfl, rfl⟩
  · simp only [bind_eq_ok, require_eq_ok, exists_const, pure_eq_ok] at partitioned
    obtain ⟨contained, apart, rfl⟩ := partitioned
    apply tiles_partitionFrom (Nat.le_succ_of_le source.begin_le_end) (inOrder_sortRanges apart)
    intro target member
    exact (ValueRange.containsRange_iff _ _).mp (contained target member)

theorem partitionsExactly_of_partitionRange {source : ValueRange} {targets : List ValueRange}
    {segments : List (ValueRange × Bool)}
    (partitioned : partitionRange source targets = .ok segments) :
    PartitionsExactly source targets segments where
  ordered := (partitionRange_partitions partitioned).ordered
  contiguous := tiles_partitionRange partitioned
  covered := (partitionRange_partitions partitioned).covered
  outgoing := by
    rw [(partitionRange_partitions partitioned).marked]
    exact List.perm_insertionSort rangeLe targets

/-- A range is split into an exact partition, unless a target is not inside it or two targets
overlap. -/
theorem partitionRange_exact (source : ValueRange) (targets : List ValueRange) :
    ((∃ message, partitionRange source targets = .error message) ↔
      (∃ target ∈ targets, source.containsRange target = false) ∨
        ∃ left right, [left, right].Sublist targets ∧ left.intersects right = true) ∧
      ∀ segments, partitionRange source targets = .ok segments →
        PartitionsExactly source targets segments := by
  refine ⟨?_, fun segments => partitionsExactly_of_partitionRange⟩
  have raises_iff : (∃ message, partitionRange source targets = .error message) ↔
      ¬ ∃ segments, partitionRange source targets = .ok segments := by
    cases partitionRange source targets with
    | ok segments => exact iff_of_false nofun fun fails => fails ⟨segments, rfl⟩
    | error message => exact iff_of_true ⟨message, rfl⟩ nofun
  rw [raises_iff, exists_partitionRange_iff_inside, Classical.not_and_iff_not_or_not]
  refine or_congr ?_ ?_
  · push Not
    simp only [ne_eq, Bool.not_eq_true]
  · rw [Apart, List.pairwise_iff_forall_sublist]
    push Not
    simp only [ValueRange.disjoint_atoms_iff, Bool.not_eq_false]

/-- Two targets that touch each other and the end of the range, out of order. -/
theorem partitionsExactly_touching :
    PartitionsExactly ⟨1, 9, Nat.le_add_right 1 8⟩
      [⟨7, 9, Nat.le_add_right 7 2⟩, ⟨4, 6, Nat.le_add_right 4 2⟩]
      [(⟨1, 3, Nat.le_add_right 1 2⟩, false), (⟨4, 6, Nat.le_add_right 4 2⟩, true),
        (⟨7, 9, Nat.le_add_right 7 2⟩, true)] :=
  (partitionRange_exact _ _).2 _ rfl

/-- The outcome of a split, read off records that carry a mark when they are reserved. -/
def SplitRecords.ofMarked {H : Type} (marked : List (LocalValueRecord H × Option Bool)) :
    SplitRecords H where
  updatedRecords := marked.map Prod.fst
  pendingRecordIds := (marked.filter fun item => item.2.isSome).map fun item => item.1.recordId
  outgoingRecordIds :=
    (marked.filter fun item => item.2 = some true).map fun item => item.1.recordId

namespace LocalWalletDB

variable {H : Type}

/-! ## Assignments -/

/-- The targets assigned to a record id. -/
def assignedTo (assignments : OrderedDict String (List ValueRange)) (recordId : String) :
    List ValueRange :=
  (assignments.get? recordId).getD []

/-- Every target is assigned to an eligible record, and nothing else is. -/
structure Assigned (eligible : List (LocalValueRecord H)) (targets : List ValueRange)
    (assignments : OrderedDict String (List ValueRange)) : Prop where
  sound : ∀ recordId, ∀ target ∈ assignedTo assignments recordId,
    target ∈ targets ∧ ∃ record ∈ eligible, record.recordId = recordId
  complete : ∀ target ∈ targets, ∃ recordId, target ∈ assignedTo assignments recordId

theorem assignTarget_assigned {eligible : List (LocalValueRecord H)} {targets : List ValueRange}
    {assignments next : OrderedDict String (List ValueRange)} {target : ValueRange}
    (assigned : Assigned eligible targets assignments)
    (succeeded : assignTarget eligible assignments target = .ok next) :
    Assigned eligible (targets ++ [target]) next := by
  simp only [assignTarget, bind_eq_ok, demand_eq_ok, pure_eq_ok] at succeeded
  obtain ⟨selected, found, rfl⟩ := succeeded
  have selected_mem := List.mem_of_find?_eq_some found
  have lookup : ∀ recordId, assignedTo (assignments.set selected.recordId
      ((assignments.get? selected.recordId).getD [] ++ [target])) recordId =
        if selected.recordId = recordId then assignedTo assignments recordId ++ [target]
        else assignedTo assignments recordId := by
    intro recordId
    rw [assignedTo, OrderedDict.get?_set]
    split
    · next id_eq => rw [id_eq]; rfl
    · rfl
  constructor
  · intro recordId other member
    rw [lookup] at member
    split at member
    · next id_eq =>
        rcases List.mem_append.mp member with earlier | added
        · obtain ⟨target_mem, covering⟩ := assigned.sound recordId other earlier
          exact ⟨List.mem_append_left _ target_mem, covering⟩
        · exact ⟨List.mem_append_right _ added, selected, selected_mem, id_eq⟩
    · obtain ⟨target_mem, covering⟩ := assigned.sound recordId other member
      exact ⟨List.mem_append_left _ target_mem, covering⟩
  · intro other member
    rcases List.mem_append.mp member with earlier | added
    · obtain ⟨recordId, other_mem⟩ := assigned.complete other earlier
      refine ⟨recordId, ?_⟩
      rw [lookup]
      split
      · exact List.mem_append_left _ other_mem
      · exact other_mem
    · refine ⟨selected.recordId, ?_⟩
      rw [lookup, if_pos rfl]
      exact List.mem_append_right _ added

theorem assignTargets_assigned {eligible : List (LocalValueRecord H)}
    {done targets : List ValueRange} {assignments final : OrderedDict String (List ValueRange)}
    (assigned : Assigned eligible done assignments)
    (succeeded : targets.foldlM (assignTarget eligible) assignments = .ok final) :
    Assigned eligible (done ++ targets) final := by
  induction targets generalizing done assignments with
  | nil =>
      cases succeeded
      rwa [List.append_nil]
  | cons target targets induction =>
      rw [List.foldlM_cons, bind_eq_ok] at succeeded
      obtain ⟨next, step, rest⟩ := succeeded
      have appended := induction (assignTarget_assigned assigned step) rest
      rwa [List.append_assoc] at appended

theorem assignTargetsToRecords_assigned {db : LocalWalletDB H} {targets : List ValueRange}
    {assignments : OrderedDict String (List ValueRange)}
    (succeeded : db.assignTargetsToRecords targets = .ok assignments) :
    Assigned (db.records.filter fun record => record.localStatus = .verifiedSpendable) targets
      assignments := by
  have initially : Assigned (db.records.filter fun record =>
      record.localStatus = .verifiedSpendable) [] ∅ :=
    ⟨fun _ _ member => (List.not_mem_nil member).elim,
      fun _ member => (List.not_mem_nil member).elim⟩
  exact assignTargets_assigned initially succeeded

/-! ## Splits -/

/-- Segments under consecutive record ids, reserved and marked. -/
def reservedGroup (recordIds : ℕ → String) (record : LocalValueRecord H)
    (segments : List (ValueRange × Bool)) (index : ℕ) :
    List (LocalValueRecord H × Option Bool) :=
  (segments.zipIdx index).map fun item =>
    (reservedSegment record (recordIds item.2) item.1.1, some item.1.2)

/-- What a split makes of one record: the record itself, or its reserved segments. -/
def SplitInto (recordIds : ℕ → String) (assignments : OrderedDict String (List ValueRange))
    (record : LocalValueRecord H) (group : List (LocalValueRecord H × Option Bool)) : Prop :=
  assignedTo assignments record.recordId = [] ∧ group = [(record, none)] ∨
    assignedTo assignments record.recordId ≠ [] ∧ ∃ segments index,
      Partitions record.value.atoms (sortRanges (assignedTo assignments record.recordId)) segments ∧
        group = reservedGroup recordIds record segments index

theorem sortRanges_eq_nil {ranges : List ValueRange} : sortRanges ranges = [] ↔ ranges = [] := by
  rw [← List.length_eq_zero_iff, ← List.length_eq_zero_iff, sortRanges, List.length_insertionSort]

theorem sortRanges_sortRanges (ranges : List ValueRange) :
    sortRanges (sortRanges ranges) = sortRanges ranges :=
  (List.pairwise_insertionSort rangeLe ranges).insertionSort_eq

/-- The split loop replaces every record by its group, and draws the ids of the reserved segments
one after another. -/
theorem splitRecords_groups {recordIds : ℕ → String}
    {assignments : OrderedDict String (List ValueRange)} {records : List (LocalValueRecord H)}
    {index : ℕ} {split : SplitRecords H}
    (succeeded : splitRecords recordIds assignments records index = .ok split) :
    ∃ groups count, List.Forall₂ (SplitInto recordIds assignments) records groups ∧
      split = .ofMarked groups.flatten ∧
      split.pendingRecordIds = (List.range' index count).map recordIds := by
  induction records generalizing index split with
  | nil =>
      cases succeeded
      exact ⟨[], 0, .nil, rfl, rfl⟩
  | cons record rest induction =>
      simp only [splitRecords, sortRanges_eq_nil] at succeeded
      split at succeeded
      · next unassigned =>
          simp only [bind_eq_ok, pure_eq_ok] at succeeded
          obtain ⟨others, rest_split, rfl⟩ := succeeded
          obtain ⟨groups, count, into, rfl, pending_eq⟩ := induction rest_split
          exact ⟨[(record, none)] :: groups, count, .cons (.inl ⟨unassigned, rfl⟩) into, rfl,
            pending_eq⟩
      · next assigned =>
          simp only [bind_eq_ok, pure_eq_ok] at succeeded
          obtain ⟨segments, partitioned, others, rest_split, rfl⟩ := succeeded
          obtain ⟨groups, count, into, rfl, pending_eq⟩ := induction rest_split
          have partitions := partitionRange_partitions partitioned
          rw [sortRanges_sortRanges] at partitions
          refine ⟨reservedGroup recordIds record segments index :: groups, segments.length + count,
            .cons (.inr ⟨assigned, segments, index, partitions, rfl⟩) into, ?_, ?_⟩
          · simp only [SplitRecords.ofMarked, reservedGroup, List.flatten_cons, List.map_append,
              List.filter_append, List.map_map, List.filter_map, Function.comp_def,
              Option.isSome_some, List.filter_true, Option.some.injEq, Bool.decide_eq_true]
            rfl
          · have named_eq : (segments.zipIdx index).map (fun item => recordIds item.2) =
                (List.range' index segments.length).map recordIds := by
              rw [← List.zipIdx_map_snd index segments, List.map_map]
              rfl
            rw [pending_eq, named_eq, ← List.map_append, ← List.range'_append]
            simp

/-- The atoms of a record. -/
def recordAtoms (record : LocalValueRecord H) : Finset ℕ := record.value.atoms

/-- Records made of the segments of a partition cover its source and overlap nowhere. -/
theorem cover_and_apart_of_partitions {source : Finset ℕ} {targets : List ValueRange}
    {segments : List (ValueRange × Bool)} (partitions : Partitions source targets segments)
    {make : (ValueRange × Bool) × ℕ → LocalValueRecord H}
    (value_eq : ∀ item, (make item).value = item.1.1) (index : ℕ) :
    cover recordAtoms ((segments.zipIdx index).map make) = source ∧
      Apart recordAtoms ((segments.zipIdx index).map make) := by
  have segments_apart := partitions.ordered.apart
  have covered := partitions.covered
  rw [← List.zipIdx_map_fst index segments] at segments_apart covered
  rw [List.map_map, apart_map] at segments_apart
  rw [cover_map] at covered
  rw [cover_map, apart_map]
  simp only [recordAtoms, value_eq]
  exact ⟨covered, segments_apart⟩

/-- The record has not been spent. -/
def Live (record : LocalValueRecord H) : Prop := record.localStatus ≠ .archived

instance : DecidablePred (Live (H := H)) := fun _ => inferInstanceAs (Decidable (_ ≠ _))

/-- Fresh ids for a database: each is drawn once, and no record has one. -/
structure FreshIds (db : LocalWalletDB H) (recordIds : ℕ → String) : Prop where
  injective : Function.Injective recordIds
  unused : ∀ index, recordIds index ∉ db.records.map LocalValueRecord.recordId

/-- Records with marks that result from splitting the records of a database at some targets. -/
structure SplitOf (db : LocalWalletDB H) (recordIds : ℕ → String) (targets : List ValueRange)
    (marked : List (LocalValueRecord H × Option Bool)) : Prop where
  covered : cover (fun item => recordAtoms item.1) marked = cover recordAtoms db.records
  apart : Apart (cellOf Live recordAtoms) db.records →
    Apart (fun item => cellOf Live recordAtoms item.1) marked
  kept : ∀ record, (record, none) ∈ marked → record ∈ db.records
  reserved : ∀ record mark, (record, some mark) ∈ marked → ∃ source ∈ db.records,
    source.localStatus = .verifiedSpendable ∧ source.value.containsRange record.value = true ∧
      record = reservedSegment source record.recordId record.value
  outgoing : ∀ value, (∃ record, (record, some true) ∈ marked ∧ record.value = value) ↔
    value ∈ targets
  ids_nodup : db.FreshIds recordIds → (marked.map fun item => item.1.recordId).Nodup

section Groups

variable {db : LocalWalletDB H} {recordIds : ℕ → String} {targets : List ValueRange}
  {assignments : OrderedDict String (List ValueRange)}
  {groups : List (List (LocalValueRecord H × Option Bool))}

theorem spendable_of_assigned
    (assigned : Assigned (db.records.filter fun record => record.localStatus = .verifiedSpendable)
      targets assignments)
    {record : LocalValueRecord H} (member : record ∈ db.records)
    (nonempty : assignedTo assignments record.recordId ≠ []) :
    record.localStatus = .verifiedSpendable := by
  obtain ⟨target, target_mem⟩ := List.exists_mem_of_ne_nil _ nonempty
  obtain ⟨_, eligible, eligible_mem, id_eq⟩ := assigned.sound record.recordId target target_mem
  obtain ⟨eligible_mem, spendable⟩ := List.mem_filter.mp eligible_mem
  have record_eq := List.inj_on_of_nodup_map db.recordIds_nodup eligible_mem member id_eq
  exact record_eq ▸ of_decide_eq_true spendable

theorem exists_of_mem_reservedGroup {record : LocalValueRecord H}
    {segments : List (ValueRange × Bool)} {index : ℕ} {item : LocalValueRecord H × Option Bool}
    (member : item ∈ reservedGroup recordIds record segments index) :
    ∃ segment ∈ segments, item.2 = some segment.2 ∧
      item.1 = reservedSegment record item.1.recordId segment.1 := by
  obtain ⟨named, named_mem, rfl⟩ := List.mem_map.mp member
  have segment_mem : named.1 ∈ segments := by
    rw [← List.zipIdx_map_fst index segments]
    exact List.mem_map_of_mem named_mem
  exact ⟨named.1, segment_mem, rfl, rfl⟩

theorem exists_mem_reservedGroup (recordIds : ℕ → String) {segments : List (ValueRange × Bool)}
    {segment : ValueRange × Bool} (member : segment ∈ segments) (record : LocalValueRecord H)
    (index : ℕ) : ∃ recordId, (reservedSegment record recordId segment.1, some segment.2) ∈
      reservedGroup recordIds record segments index := by
  rw [← List.zipIdx_map_fst index segments] at member
  obtain ⟨named, named_mem, rfl⟩ := List.mem_map.mp member
  exact ⟨recordIds named.2, List.mem_map_of_mem (f := fun item : (ValueRange × Bool) × ℕ =>
    (reservedSegment record (recordIds item.2) item.1.1, some item.1.2)) named_mem⟩

theorem cover_reservedGroup (record : LocalValueRecord H) (segments : List (ValueRange × Bool))
    (index : ℕ) :
    cover (fun item => recordAtoms item.1) (reservedGroup recordIds record segments index) =
      cover (fun segment => segment.1.atoms) segments := by
  rw [reservedGroup, cover_map]
  conv_rhs => rw [← List.zipIdx_map_fst index segments, cover_map]
  rfl

theorem apart_reservedGroup (record : LocalValueRecord H) {segments : List (ValueRange × Bool)}
    (index : ℕ) (ordered : InOrder (segments.map Prod.fst)) :
    Apart (fun item => cellOf Live recordAtoms item.1)
      (reservedGroup recordIds record segments index) := by
  have segments_apart := ordered.apart
  rw [← List.zipIdx_map_fst index segments, List.map_map, apart_map] at segments_apart
  rw [reservedGroup, apart_map]
  exact segments_apart

/-- What a group does to the atoms of its record. -/
theorem SplitInto.refines
    (assigned : Assigned (db.records.filter fun record => record.localStatus = .verifiedSpendable)
      targets assignments)
    {record : LocalValueRecord H} {group : List (LocalValueRecord H × Option Bool)}
    (into : SplitInto recordIds assignments record group) (member : record ∈ db.records) :
    cover (fun item => recordAtoms item.1) group = recordAtoms record ∧
      cover (fun item => cellOf Live recordAtoms item.1) group ⊆ cellOf Live recordAtoms record ∧
      Apart (fun item => cellOf Live recordAtoms item.1) group := by
  rcases into with ⟨_, rfl⟩ | ⟨nonempty, segments, index, partitions, rfl⟩
  · refine ⟨Finset.union_empty _, ?_, List.pairwise_singleton _ _⟩
    rw [cover_cons, cover_nil, Finset.union_empty]
  · have covered : cover (fun item => recordAtoms item.1)
        (reservedGroup recordIds record segments index) = recordAtoms record :=
      (cover_reservedGroup record segments index).trans partitions.covered
    have live : Live record := by
      rw [Live, spendable_of_assigned assigned member nonempty]
      exact LocalValueStatus.noConfusion
    refine ⟨covered, ?_, apart_reservedGroup record index partitions.ordered⟩
    intro atom inside
    obtain ⟨item, item_mem, in_cell⟩ := mem_cover.mp inside
    rw [cellOf, if_pos live, ← covered]
    refine mem_cover.mpr ⟨item, item_mem, ?_⟩
    rw [cellOf] at in_cell
    split at in_cell
    · exact in_cell
    · exact absurd in_cell (Finset.notMem_empty atom)

theorem sublist_kept_ids {records : List (LocalValueRecord H)}
    (into : List.Forall₂ (SplitInto recordIds assignments) records groups) :
    ((groups.flatten.filter fun item => !item.2.isSome).map fun item => item.1.recordId).Sublist
      (records.map LocalValueRecord.recordId) := by
  induction into with
  | nil => exact List.nil_sublist _
  | @cons record group records groups head _ induction =>
      rw [List.flatten_cons, List.filter_append, List.map_append, List.map_cons]
      rcases head with ⟨_, rfl⟩ | ⟨_, segments, index, _, rfl⟩
      · exact induction.cons_cons record.recordId
      · have none_kept : (reservedGroup recordIds record segments index).filter
            (fun item => !item.2.isSome) = [] := by
          rw [List.filter_eq_nil_iff]
          intro item member
          obtain ⟨segment, _, mark_eq, _⟩ := exists_of_mem_reservedGroup member
          simp [mark_eq]
        rw [none_kept]
        exact induction.cons record.recordId

/-- Ids are unique when some of them are fresh and the others belong to different records. -/
theorem FreshIds.nodup_of_perm (fresh : db.FreshIds recordIds) {ids kept : List String}
    {index count : ℕ} (sublist : kept.Sublist (db.records.map LocalValueRecord.recordId))
    (perm : ids.Perm ((List.range' index count).map recordIds ++ kept)) : ids.Nodup := by
  rw [perm.nodup_iff, List.nodup_append]
  refine ⟨(List.nodup_range' 1).map fresh.injective, db.recordIds_nodup.sublist sublist, ?_⟩
  rintro drawn_id drawn_mem kept_id kept_mem rfl
  obtain ⟨drawn_index, _, rfl⟩ := List.mem_map.mp drawn_mem
  exact fresh.unused drawn_index (sublist.mem kept_mem)

theorem ids_nodup_of_fresh (fresh : db.FreshIds recordIds)
    (into : List.Forall₂ (SplitInto recordIds assignments) db.records groups) {count : ℕ}
    (drawn : (SplitRecords.ofMarked groups.flatten).pendingRecordIds =
      (List.range' 0 count).map recordIds) :
    (groups.flatten.map fun item => item.1.recordId).Nodup := by
  have perm := (List.filter_append_perm (fun item => item.2.isSome) groups.flatten).map
    (fun item : LocalValueRecord H × Option Bool => item.1.recordId)
  have drawn : (groups.flatten.filter fun item => item.2.isSome).map
      (fun item => item.1.recordId) = (List.range' 0 count).map recordIds := drawn
  rw [List.map_append, drawn] at perm
  exact fresh.nodup_of_perm (sublist_kept_ids into) perm.symm

theorem splitOf_groups
    (assigned : Assigned (db.records.filter fun record => record.localStatus = .verifiedSpendable)
      targets assignments)
    (into : List.Forall₂ (SplitInto recordIds assignments) db.records groups) {count : ℕ}
    (drawn : (SplitRecords.ofMarked groups.flatten).pendingRecordIds =
      (List.range' 0 count).map recordIds) :
    db.SplitOf recordIds targets groups.flatten := by
  have members : List.Forall₂ (fun record group => record ∈ db.records ∧
      SplitInto recordIds assignments record group) db.records groups :=
    (List.forall₂_and_left _ _).mpr ⟨fun _ member => member, into⟩
  constructor
  case covered =>
    exact cover_flatten (members.imp fun _ _ ⟨member, split⟩ => (split.refines assigned member).1)
  case apart =>
    intro apart
    exact (apart.flatten (members.imp fun _ _ ⟨member, split⟩ =>
      (split.refines assigned member).2)).1
  case kept =>
    intro record member
    obtain ⟨source, source_mem, group, split, in_group⟩ := exists_item into member
    rcases split with ⟨_, rfl⟩ | ⟨_, segments, index, _, rfl⟩
    · obtain ⟨rfl, _⟩ := Prod.mk.inj (List.mem_singleton.mp in_group)
      exact source_mem
    · obtain ⟨_, _, mark_eq, _⟩ := exists_of_mem_reservedGroup in_group
      cases mark_eq
  case reserved =>
    intro record mark member
    obtain ⟨source, source_mem, group, split, in_group⟩ := exists_item into member
    rcases split with ⟨_, rfl⟩ | ⟨nonempty, segments, index, partitions, rfl⟩
    · obtain ⟨_, mark_eq⟩ := Prod.mk.inj (List.mem_singleton.mp in_group)
      cases mark_eq
    · obtain ⟨segment, segment_mem, _, record_eq⟩ := exists_of_mem_reservedGroup in_group
      have value_eq : record.value = segment.1 := congrArg LocalValueRecord.value record_eq
      refine ⟨source, source_mem, spendable_of_assigned assigned source_mem nonempty, ?_,
        value_eq ▸ record_eq⟩
      have inside : segment.1.atoms ⊆ source.value.atoms := by
        rw [← partitions.covered]
        intro atom atom_mem
        exact mem_cover.mpr ⟨segment, segment_mem, atom_mem⟩
      have ends := segment.1.begin_le_end
      have first := inside (ValueRange.mem_atoms.mpr ⟨le_rfl, ends⟩)
      have last := inside (ValueRange.mem_atoms.mpr ⟨ends, le_rfl⟩)
      rw [value_eq, ValueRange.containsRange_iff]
      exact ⟨(ValueRange.mem_atoms.mp first).1, (ValueRange.mem_atoms.mp last).2⟩
  case outgoing =>
    intro value
    constructor
    · rintro ⟨record, member, rfl⟩
      obtain ⟨source, _, group, split, in_group⟩ := exists_item into member
      rcases split with ⟨_, rfl⟩ | ⟨_, segments, index, partitions, rfl⟩
      · obtain ⟨_, mark_eq⟩ := Prod.mk.inj (List.mem_singleton.mp in_group)
        cases mark_eq
      · obtain ⟨segment, segment_mem, mark_eq, record_eq⟩ := exists_of_mem_reservedGroup in_group
        have value_eq : record.value = segment.1 := congrArg LocalValueRecord.value record_eq
        have target_mem : segment.1 ∈ sortRanges (assignedTo assignments source.recordId) := by
          rw [← partitions.marked]
          exact List.mem_map_of_mem (List.mem_filter.mpr
            ⟨segment_mem, (Option.some.inj mark_eq).symm⟩)
        rw [value_eq]
        exact (assigned.sound _ _ (mem_sortRanges.mp target_mem)).1
    · intro target_mem
      obtain ⟨recordId, assigned_mem⟩ := assigned.complete value target_mem
      obtain ⟨_, source, source_mem, rfl⟩ := assigned.sound recordId value assigned_mem
      obtain ⟨group, group_mem, split⟩ :=
        Checks.exists_related into (List.mem_filter.mp source_mem).1
      rcases split with ⟨unassigned, _⟩ | ⟨_, segments, index, partitions, rfl⟩
      · rw [unassigned] at assigned_mem
        exact absurd assigned_mem List.not_mem_nil
      · rw [← mem_sortRanges, ← partitions.marked] at assigned_mem
        obtain ⟨segment, segment_mem, rfl⟩ := List.mem_map.mp assigned_mem
        obtain ⟨segment_mem, marked⟩ := List.mem_filter.mp segment_mem
        obtain ⟨newId, reserved_mem⟩ :=
          exists_mem_reservedGroup recordIds segment_mem source index
        rw [marked] at reserved_mem
        exact ⟨_, List.mem_flatten_of_mem group_mem reserved_mem, rfl⟩
  case ids_nodup =>
    exact fun fresh => ids_nodup_of_fresh fresh into drawn

end Groups

end LocalWalletDB

end EZChain
