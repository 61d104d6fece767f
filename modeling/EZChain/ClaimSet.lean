import EZChain.SparseMerkle

/-!
# Claim range sets

The value ranges that a bundle moves are merged into a sorted list of disjoint, non-adjacent
ranges.  The merged list covers exactly the atoms of the ranges it was built from.
-/

namespace EZChain

/-- Sort key of a range: its two ends. -/
def rangeLe (left right : ValueRange) : Prop :=
  left.valueBegin < right.valueBegin ∨
    left.valueBegin = right.valueBegin ∧ left.valueEnd ≤ right.valueEnd

instance : DecidableRel rangeLe := fun _ _ => inferInstanceAs (Decidable (_ ∨ _))

instance : Std.Total rangeLe where
  total left right := by
    unfold rangeLe
    omega

instance : IsTrans ValueRange rangeLe where
  trans left middle right := by
    unfold rangeLe
    omega

/-- The merging loop: extend the last range, or start a new one. -/
def mergeRanges (last : ValueRange) : List ValueRange → List ValueRange
  | [] => [last]
  | item :: rest =>
      if item.valueBegin ≤ last.valueEnd + 1 then
        mergeRanges ⟨last.valueBegin, max last.valueEnd item.valueEnd,
          last.begin_le_end.trans (le_max_left _ _)⟩ rest
      else last :: mergeRanges item rest

/-- Merging leaves at least one range, and the ranges are sorted, disjoint and not adjacent. -/
theorem mergeRanges_normalized (last : ValueRange) (items : List ValueRange)
    (sorted : (last :: items).Pairwise rangeLe) :
    (∀ range ∈ mergeRanges last items, last.valueBegin ≤ range.valueBegin) ∧
      (mergeRanges last items).Pairwise
        fun left right => left.valueEnd + 1 < right.valueBegin := by
  induction items generalizing last with
  | nil => simp [mergeRanges]
  | cons item rest induction =>
      obtain ⟨last_le, rest_sorted⟩ := List.pairwise_cons.mp sorted
      obtain ⟨item_le, _⟩ := List.pairwise_cons.mp rest_sorted
      have last_le_item := last_le item List.mem_cons_self
      simp only [mergeRanges]
      split
      · apply induction
        refine List.pairwise_cons.mpr ⟨fun other other_mem => ?_, rest_sorted.of_cons⟩
        have last_le_other := last_le other (List.mem_cons_of_mem item other_mem)
        have item_le_other := item_le other other_mem
        simp only [rangeLe] at *
        omega
      · next apart =>
          obtain ⟨rest_begin, rest_normalized⟩ := induction item rest_sorted
          constructor
          · intro range member
            rcases List.mem_cons.mp member with rfl | member
            · exact le_rfl
            · have item_begin := rest_begin range member
              simp only [rangeLe] at last_le_item
              omega
          · refine List.pairwise_cons.mpr ⟨fun range member => ?_, rest_normalized⟩
            have item_begin := rest_begin range member
            omega

/-- Merging keeps the covered atoms. -/
theorem exists_mem_mergeRanges_iff (last : ValueRange) (items : List ValueRange) (value : ℕ)
    (sorted : (last :: items).Pairwise rangeLe) :
    (∃ range ∈ mergeRanges last items, range.containsValue value = true) ↔
      ∃ range ∈ last :: items, range.containsValue value = true := by
  induction items generalizing last with
  | nil => simp [mergeRanges]
  | cons item rest induction =>
      obtain ⟨last_le, rest_sorted⟩ := List.pairwise_cons.mp sorted
      have last_le_item := last_le item List.mem_cons_self
      simp only [mergeRanges]
      split
      · have extended_sorted : (⟨last.valueBegin, max last.valueEnd item.valueEnd,
            last.begin_le_end.trans (le_max_left _ _)⟩ :: rest).Pairwise rangeLe := by
          refine List.pairwise_cons.mpr ⟨fun other other_mem => ?_, rest_sorted.of_cons⟩
          have last_le_other := last_le other (List.mem_cons_of_mem item other_mem)
          have item_le_other := (List.pairwise_cons.mp rest_sorted).1 other other_mem
          simp only [rangeLe] at *
          omega
        rw [induction _ extended_sorted]
        simp only [List.exists_mem_cons_iff, ← or_assoc, ValueRange.containsValue_iff]
        apply or_congr_left
        simp only [rangeLe] at last_le_item
        omega
      · simp only [List.exists_mem_cons_iff] at induction ⊢
        rw [induction item rest_sorted]

/-- Merged ranges of a sorted list. -/
def mergeSorted : List ValueRange → List ValueRange
  | [] => []
  | first :: rest => mergeRanges first rest

/-- `build_claim_range_set`: sort the ranges and merge those that touch. -/
def buildClaimRangeSet (values : List ValueRange) : ClaimRangeSet where
  ranges := mergeSorted (values.insertionSort rangeLe)
  normalized := by
    have sorted := List.pairwise_insertionSort rangeLe values
    cases sorted_eq : values.insertionSort rangeLe with
    | nil => exact List.Pairwise.nil
    | cons first rest => exact (mergeRanges_normalized first rest (sorted_eq ▸ sorted)).2

/-- `claim_range_set_from_sidecar`: the claim set of all transfers of a bundle. -/
def claimRangeSetFromSidecar (sidecar : BundleSidecar) : ClaimRangeSet :=
  buildClaimRangeSet (sidecar.txList.flatMap OffChainTx.valueList)

/-- `claim_range_set_hash`. -/
def claimRangeSetHash {H : Type} [Crypto H] (claims : ClaimRangeSet) : H :=
  Crypto.keccak256 [.tag "EZCHAIN_CLAIM_SET_V1", .encoded claims.canonicalize]

/-- `claim_range_set_intersects`. -/
def claimRangeSetIntersects (claims : ClaimRangeSet) (value : ValueRange) : Bool :=
  claims.ranges.any fun item =>
    item.intersects value || item.containsRange value || value.containsRange item

/-- A claim set covers the atoms it was built from. -/
theorem exists_mem_buildClaimRangeSet_iff (values : List ValueRange) (value : ℕ) :
    (∃ range ∈ (buildClaimRangeSet values).ranges, range.containsValue value = true) ↔
      ∃ range ∈ values, range.containsValue value = true := by
  have sorted := List.pairwise_insertionSort rangeLe values
  have same_ranges : ∀ range, range ∈ values.insertionSort rangeLe ↔ range ∈ values :=
    fun range => (List.perm_insertionSort rangeLe values).mem_iff
  simp only [buildClaimRangeSet, ← same_ranges]
  cases sorted_eq : values.insertionSort rangeLe with
  | nil => rfl
  | cons first rest => exact exists_mem_mergeRanges_iff first rest value (sorted_eq ▸ sorted)

/-- A claim set intersects a range exactly when some range that it was built from does. -/
theorem claimRangeSetIntersects_buildClaimRangeSet_iff (values : List ValueRange)
    (target : ValueRange) :
    claimRangeSetIntersects (buildClaimRangeSet values) target = true ↔
      ∃ range ∈ values, range.intersects target = true := by
  have touches : ∀ range : ValueRange,
      (range.intersects target || range.containsRange target || target.containsRange range) =
        range.intersects target := by
    intro range
    have range_le := range.begin_le_end
    have target_le := target.begin_le_end
    rw [Bool.eq_iff_iff]
    simp only [Bool.or_eq_true, ValueRange.intersects_iff, ValueRange.containsRange_iff]
    omega
  have covered := exists_mem_buildClaimRangeSet_iff values
  simp only [claimRangeSetIntersects, List.any_eq_true, touches]
  constructor
  · rintro ⟨merged, member, overlap⟩
    obtain ⟨value, inside, inside_target⟩ := (merged.intersects_iff_exists target).mp overlap
    obtain ⟨range, range_mem, in_range⟩ := (covered value).mp ⟨merged, member, inside⟩
    exact ⟨range, range_mem,
      (range.intersects_iff_exists target).mpr ⟨value, in_range, inside_target⟩⟩
  · rintro ⟨range, range_mem, overlap⟩
    obtain ⟨value, inside, inside_target⟩ := (range.intersects_iff_exists target).mp overlap
    obtain ⟨merged, member, in_merged⟩ := (covered value).mpr ⟨range, range_mem, inside⟩
    exact ⟨merged, member,
      (merged.intersects_iff_exists target).mpr ⟨value, in_merged, inside_target⟩⟩

/-- A claim set intersects a range exactly when some transferred range does. -/
theorem claimRangeSetIntersects_iff (sidecar : BundleSidecar) (target : ValueRange) :
    claimRangeSetIntersects (claimRangeSetFromSidecar sidecar) target = true ↔
      ∃ tx ∈ sidecar.txList, ∃ range ∈ tx.valueList, range.intersects target = true := by
  rw [claimRangeSetFromSidecar, claimRangeSetIntersects_buildClaimRangeSet_iff]
  constructor
  · rintro ⟨range, member, overlap⟩
    obtain ⟨tx, tx_mem, range_mem⟩ := List.mem_flatMap.mp member
    exact ⟨tx, tx_mem, range, range_mem, overlap⟩
  · rintro ⟨tx, tx_mem, range, range_mem, overlap⟩
    exact ⟨range, List.mem_flatMap.mpr ⟨tx, tx_mem, range_mem⟩, overlap⟩

end EZChain
