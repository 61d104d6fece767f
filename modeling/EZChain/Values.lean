import Mathlib.Data.Finset.Insert
import Mathlib.Order.Lattice
import Mathlib.Tactic.Common

/-!
# Value ranges

A value is a closed range of atoms.  An atom lies in a range when it is between the two ends;
intersection and containment of ranges are facts about their atoms.
-/

namespace EZChain

/-- The largest integer that a column of a database takes: `2 ^ 63 - 1`. -/
def maxColumnInteger : ℕ := 9223372036854775807

/-- Closed, nonempty range of value atoms. -/
@[ext]
structure ValueRange where
  /-- First atom of the range. -/
  valueBegin : ℕ
  /-- Last atom of the range. -/
  valueEnd : ℕ
  /-- The range holds at least one atom. -/
  begin_le_end : valueBegin ≤ valueEnd

namespace ValueRange

instance : DecidableEq ValueRange := fun _ _ => decidable_of_iff _ ValueRange.ext_iff.symm

/-- Build a range from two integers, with the checks of the constructor. -/
def ofInts (valueBegin valueEnd : ℤ) : Except String ValueRange :=
  if negative : valueBegin < 0 ∨ valueEnd < 0 then
    .error "value range cannot be negative"
  else if reversed : valueEnd < valueBegin then
    .error "value range end must be >= begin"
  else
    .ok ⟨valueBegin.toNat, valueEnd.toNat, by omega⟩

theorem ofInts_eq_ok_iff {valueBegin valueEnd : ℤ} {value : ValueRange} :
    ofInts valueBegin valueEnd = .ok value ↔
      valueBegin = value.valueBegin ∧ valueEnd = value.valueEnd := by
  have ordered := value.begin_le_end
  rw [ofInts]
  constructor
  · intro built
    split_ifs at built with negative reversed
    have fields := ValueRange.ext_iff.mp (Except.ok.inj built)
    simp only at fields
    omega
  · rintro ⟨rfl, rfl⟩
    rw [dif_neg (by omega), dif_neg (by omega)]
    rfl

/-- Number of atoms. -/
def size (range : ValueRange) : ℕ := range.valueEnd - range.valueBegin + 1

/-- The two ranges share an atom. -/
def intersects (range other : ValueRange) : Bool :=
  range.valueBegin ≤ other.valueEnd && other.valueBegin ≤ range.valueEnd

/-- The atom lies in the range. -/
def containsValue (range : ValueRange) (value : ℕ) : Bool :=
  range.valueBegin ≤ value && value ≤ range.valueEnd

/-- The other range lies inside this one. -/
def containsRange (range other : ValueRange) : Bool :=
  range.valueBegin ≤ other.valueBegin && other.valueEnd ≤ range.valueEnd

@[simp]
theorem intersects_iff (range other : ValueRange) :
    range.intersects other = true ↔
      range.valueBegin ≤ other.valueEnd ∧ other.valueBegin ≤ range.valueEnd := by
  simp [intersects]

@[simp]
theorem containsValue_iff (range : ValueRange) (value : ℕ) :
    range.containsValue value = true ↔ range.valueBegin ≤ value ∧ value ≤ range.valueEnd := by
  simp [containsValue]

@[simp]
theorem containsRange_iff (range other : ValueRange) :
    range.containsRange other = true ↔
      range.valueBegin ≤ other.valueBegin ∧ other.valueEnd ≤ range.valueEnd := by
  simp [containsRange]

theorem begin_le_end_int (range : ValueRange) : (range.valueBegin : ℤ) ≤ range.valueEnd :=
  Int.ofNat_le.mpr range.begin_le_end

/-- Two ranges intersect exactly when some atom lies in both. -/
theorem intersects_iff_exists (range other : ValueRange) :
    range.intersects other = true ↔
      ∃ value, range.containsValue value = true ∧ other.containsValue value = true := by
  simp only [intersects_iff, containsValue_iff]
  have range_le := range.begin_le_end
  have other_le := other.begin_le_end
  constructor
  · intro overlap
    exact ⟨max range.valueBegin other.valueBegin, by omega, by omega⟩
  · rintro ⟨value, inside, inside_other⟩
    omega

theorem intersects_comm (range other : ValueRange) :
    range.intersects other = other.intersects range := by
  simp only [intersects, Bool.and_comm]

end ValueRange

end EZChain
