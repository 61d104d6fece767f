import EZChain.ClaimSet
import EZChain.Library.Checks

/-!
# Normal forms of claim sets

Sorted ranges with gaps between them are determined by the atoms that they cover: the first range
starts at the least atom and ends before the first gap.  Two lists of ranges therefore have the same
claim set exactly when they cover the same atoms.
-/

namespace EZChain

open Checks

/-- There is at least one atom between the two ranges. -/
def Separated (left right : ValueRange) : Prop := left.valueEnd + 1 < right.valueBegin

instance : DecidableRel Separated := fun _ _ => inferInstanceAs (Decidable (_ < _))

instance : IsTrans ValueRange Separated where
  trans left middle right := by
    have ends := middle.begin_le_end
    unfold Separated
    omega

/-- Some range of the list holds the atom. -/
def Covers (ranges : List ValueRange) (atom : ℕ) : Prop :=
  ∃ range ∈ ranges, range.containsValue atom = true

/-! ## Building with the checks of the constructors -/

/-- The constructor of a claim range set, which compares neighbours. -/
def ClaimRangeSet.ofRanges (ranges : List ValueRange) : Except String ClaimRangeSet :=
  if normalized : ranges.IsChain Separated then
    .ok ⟨ranges, show ranges.Pairwise Separated from List.isChain_iff_pairwise.mp normalized⟩
  else .error "claim ranges must be normalized and non-adjacent"

/-- One turn of the merging loop, which looks at the last merged range. -/
def mergeItem (merged : List ValueRange) (item : ValueRange) : Except String (List ValueRange) := do
  let previous ← demand merged.getLast? "list index out of range"
  if item.valueBegin ≤ previous.valueEnd + 1 then
    let extended ← ValueRange.ofInts previous.valueBegin (max previous.valueEnd item.valueEnd : ℕ)
    pure (merged.dropLast ++ [extended])
  else pure (merged ++ [item])

/-- `build_claim_range_set`, with the checks of the constructors that it calls. -/
def buildClaimRangeSetChecked (values : List ValueRange) : Except String ClaimRangeSet :=
  match values.insertionSort rangeLe with
  | [] => ClaimRangeSet.ofRanges []
  | first :: rest => do
      let merged ← rest.foldlM mergeItem [first]
      ClaimRangeSet.ofRanges merged

/-- The merging loop raises nothing and leaves the merged ranges behind the finished ones. -/
theorem foldlM_mergeItem (done : List ValueRange) (last : ValueRange) (items : List ValueRange) :
    items.foldlM mergeItem (done ++ [last]) = .ok (done ++ mergeRanges last items) := by
  induction items generalizing done last with
  | nil => rfl
  | cons item items induction =>
      have found : (done ++ [last]).getLast? = some last := List.getLast?_concat
      rw [List.foldlM_cons, bind_eq_ok, mergeRanges]
      simp only [mergeItem, bind_eq_ok, demand_eq_ok, found]
      split
      next touching =>
        let extended : ValueRange := ⟨last.valueBegin, max last.valueEnd item.valueEnd,
          last.begin_le_end.trans (le_max_left _ _)⟩
        have built : ValueRange.ofInts last.valueBegin (max last.valueEnd item.valueEnd : ℕ) =
            .ok extended := ValueRange.ofInts_eq_ok_iff.mpr ⟨rfl, rfl⟩
        refine ⟨done ++ [extended], ⟨last, rfl, ?_⟩, induction done extended⟩
        rw [if_pos touching, built, List.dropLast_concat]
        rfl
      next apart =>
        refine ⟨(done ++ [last]) ++ [item], ⟨last, rfl, if_neg apart⟩, ?_⟩
        rw [induction, List.append_assoc, List.singleton_append]

theorem buildClaimRangeSetChecked_eq_ok (values : List ValueRange) :
    buildClaimRangeSetChecked values = .ok (buildClaimRangeSet values) := by
  have accepted : ClaimRangeSet.ofRanges (buildClaimRangeSet values).ranges =
      .ok (buildClaimRangeSet values) := by
    have normalized : (buildClaimRangeSet values).ranges.Pairwise Separated :=
      (buildClaimRangeSet values).normalized
    exact dif_pos (List.isChain_iff_pairwise.mpr normalized)
  rw [← accepted, buildClaimRangeSetChecked]
  simp only [buildClaimRangeSet]
  cases values.insertionSort rangeLe with
  | nil => rfl
  | cons first rest =>
      have loop := foldlM_mergeItem [] first rest
      rw [List.nil_append] at loop
      simp only [loop, mergeSorted]
      rfl

/-! ## Separated ranges and their atoms -/

section Atoms

variable {first : ValueRange} {rest : List ValueRange}

theorem begin_le_of_covers (separated : (first :: rest).Pairwise Separated) {atom : ℕ}
    (covered : Covers (first :: rest) atom) : first.valueBegin ≤ atom := by
  obtain ⟨range, member, inside⟩ := covered
  rw [ValueRange.containsValue_iff] at inside
  have ends := first.begin_le_end
  rcases List.mem_cons.mp member with rfl | later
  · exact inside.1
  · have gap : first.valueEnd + 1 < range.valueBegin :=
      (List.pairwise_cons.mp separated).1 range later
    omega

theorem covers_begin : Covers (first :: rest) first.valueBegin :=
  ⟨first, List.mem_cons_self,
    (first.containsValue_iff _).mpr ⟨le_rfl, first.begin_le_end⟩⟩

theorem not_covers_after (separated : (first :: rest).Pairwise Separated) :
    ¬ Covers (first :: rest) (first.valueEnd + 1) := by
  rintro ⟨range, member, inside⟩
  rw [ValueRange.containsValue_iff] at inside
  rcases List.mem_cons.mp member with rfl | later
  · omega
  · have gap : first.valueEnd + 1 < range.valueBegin :=
      (List.pairwise_cons.mp separated).1 range later
    omega

theorem covers_tail_iff (separated : (first :: rest).Pairwise Separated) (atom : ℕ) :
    Covers rest atom ↔ Covers (first :: rest) atom ∧ first.valueEnd < atom := by
  constructor
  · rintro ⟨range, later, inside⟩
    have gap : first.valueEnd + 1 < range.valueBegin :=
      (List.pairwise_cons.mp separated).1 range later
    have bounds := (range.containsValue_iff atom).mp inside
    exact ⟨⟨range, List.mem_cons_of_mem first later, inside⟩, by omega⟩
  · rintro ⟨⟨range, member, inside⟩, after⟩
    rcases List.mem_cons.mp member with rfl | later
    · have bounds := (range.containsValue_iff atom).mp inside
      omega
    · exact ⟨range, later, inside⟩

theorem end_le_of_covers {other : ValueRange} {others : List ValueRange}
    (separated : (other :: others).Pairwise Separated)
    (covered : ∀ atom, Covers (first :: rest) atom → Covers (other :: others) atom)
    (begins : first.valueBegin = other.valueBegin) : first.valueEnd ≤ other.valueEnd := by
  by_contra longer
  have other_ends := other.begin_le_end
  have inside : first.containsValue (other.valueEnd + 1) = true := by
    rw [ValueRange.containsValue_iff]
    omega
  exact not_covers_after separated (covered _ ⟨first, List.mem_cons_self, inside⟩)

/-- Separated ranges are determined by the atoms that they cover. -/
theorem eq_of_same_atoms {left right : List ValueRange} (left_separated : left.Pairwise Separated)
    (right_separated : right.Pairwise Separated)
    (same : ∀ atom, Covers left atom ↔ Covers right atom) : left = right := by
  induction left generalizing right with
  | nil =>
      cases right with
      | nil => rfl
      | cons other others =>
          obtain ⟨range, member, _⟩ := (same _).mpr covers_begin
          exact absurd member List.not_mem_nil
  | cons first rest induction =>
      cases right with
      | nil =>
          obtain ⟨range, member, _⟩ := (same _).mp covers_begin
          exact absurd member List.not_mem_nil
      | cons other others =>
          have begins : first.valueBegin = other.valueBegin :=
            le_antisymm (begin_le_of_covers left_separated ((same _).mpr covers_begin))
              (begin_le_of_covers right_separated ((same _).mp covers_begin))
          have ends : first.valueEnd = other.valueEnd :=
            le_antisymm (end_le_of_covers right_separated (fun atom => (same atom).mp) begins)
              (end_le_of_covers left_separated (fun atom => (same atom).mpr) begins.symm)
          obtain rfl : first = other := ValueRange.ext begins ends
          congr 1
          refine induction left_separated.of_cons right_separated.of_cons fun atom => ?_
          rw [covers_tail_iff left_separated, covers_tail_iff right_separated, same]

end Atoms

/-! ## Claim sets as normal forms -/

theorem covers_buildClaimRangeSet_iff (values : List ValueRange) (atom : ℕ) :
    Covers (buildClaimRangeSet values).ranges atom ↔ Covers values atom :=
  exists_mem_buildClaimRangeSet_iff values atom

theorem buildClaimRangeSet_eq_iff (left right : List ValueRange) :
    buildClaimRangeSet left = buildClaimRangeSet right ↔
      ∀ atom, Covers left atom ↔ Covers right atom := by
  constructor
  · intro same atom
    rw [← covers_buildClaimRangeSet_iff left, same, covers_buildClaimRangeSet_iff right]
  · intro same
    have ranges_eq : (buildClaimRangeSet left).ranges = (buildClaimRangeSet right).ranges := by
      refine eq_of_same_atoms (buildClaimRangeSet left).normalized
        (buildClaimRangeSet right).normalized fun atom => ?_
      rw [covers_buildClaimRangeSet_iff, covers_buildClaimRangeSet_iff, same]
    cases left_eq : buildClaimRangeSet left
    cases right_eq : buildClaimRangeSet right
    rw [left_eq, right_eq] at ranges_eq
    subst ranges_eq
    rfl

theorem claimRangeSetHash_eq_iff {H : Type} [Crypto H] (ideal : IdealHash H)
    (left right : ClaimRangeSet) :
    (claimRangeSetHash left : H) = claimRangeSetHash right ↔ left = right := by
  refine ⟨fun same => ?_, congrArg _⟩
  have chunks := ideal same
  simp only [List.cons.injEq, Chunk.encoded.injEq, and_true, true_and] at chunks
  exact ClaimRangeSet.canonicalize_injective chunks

/-- Claim sets are built without raising and are normal forms of the covered atoms; a claim set
intersects a range exactly when one of the ranges that it was built from shares an atom with it. -/
theorem claim_sets_canonical (H : Type) [Crypto H] (left right : List ValueRange) :
    ∃ leftClaims rightClaims, buildClaimRangeSetChecked left = .ok leftClaims ∧
      buildClaimRangeSetChecked right = .ok rightClaims ∧
      (leftClaims = rightClaims ↔ ∀ atom, Covers left atom ↔ Covers right atom) ∧
      ((∀ atom, Covers left atom ↔ Covers right atom) →
        (claimRangeSetHash leftClaims : H) = claimRangeSetHash rightClaims) ∧
      (IdealHash H → (claimRangeSetHash leftClaims : H) = claimRangeSetHash rightClaims →
        ∀ atom, Covers left atom ↔ Covers right atom) ∧
      leftClaims.ranges.Pairwise Separated ∧
      ∀ target, claimRangeSetIntersects leftClaims target = true ↔
        ∃ range ∈ left, ∃ atom, range.containsValue atom = true ∧
          target.containsValue atom = true := by
  have same := buildClaimRangeSet_eq_iff left right
  refine ⟨buildClaimRangeSet left, buildClaimRangeSet right, buildClaimRangeSetChecked_eq_ok left,
    buildClaimRangeSetChecked_eq_ok right, same, fun atoms => congrArg _ (same.mpr atoms),
    fun ideal hashes => same.mp ((claimRangeSetHash_eq_iff ideal _ _).mp hashes),
    (buildClaimRangeSet left).normalized, fun target => ?_⟩
  simp only [claimRangeSetIntersects_buildClaimRangeSet_iff, ValueRange.intersects_iff_exists]

end EZChain
