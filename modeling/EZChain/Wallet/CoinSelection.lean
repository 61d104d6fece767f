import EZChain.Library.Checks
import EZChain.Library.TableSelection
import EZChain.Wallet.Receive
import Mathlib.Algebra.Order.Monoid.WithTop
import Mathlib.Data.Int.ConditionallyCompleteOrder
import Mathlib.Data.List.Lex
import Mathlib.Data.Prod.Lex
import Mathlib.Order.ConditionallyCompleteLattice.Basic

/-!
# Selecting the ranges of a payment

A payment is made from whole values and at most one part of a value.  The wallet adds its spendable
values one after the other to a table that keeps, for each sum up to the amount, the plan of least
cost, and returns the ranges of the best plan for the amount.  The cost counts values first, then
splits, values without a checkpoint of their own, the bundles up to the next checkpoint anchor
(infinitely many where there is none), all bundles of the histories, and the age of the values.
-/

namespace EZChain

open Checks TableSelection

variable {H : Type}

/-! ## Spendable records -/

/-- Key of `_sorted_spendable_records`. -/
def spendableKey (record : LocalValueRecord H) : ℕ ×ₗ ℤ ×ₗ ℕ ×ₗ ℕ :=
  toLex (record.witnessV2.confirmedBundleChain.length,
    toLex (-record.acquisitionHeight, toLex (record.value.size, record.value.valueBegin)))

/-- `_sorted_spendable_records`. -/
def sortedSpendableRecords (records : List (LocalValueRecord H)) : List (LocalValueRecord H) :=
  (records.filter fun record => record.localStatus = .verifiedSpendable).insertionSort
    fun left right => spendableKey left ≤ spendableKey right

/-- `_has_exact_local_checkpoint`. -/
def hasExactLocalCheckpoint (address : Address) (checkpoints : List (Checkpoint H))
    (record : LocalValueRecord H) : Bool :=
  checkpoints.any fun checkpoint => checkpoint.matches record.value address

/-- `_witness_total_units`. -/
def witnessTotalUnits : WitnessV2 H → ℕ
  | .genesis _ _ chain _ | .checkpoint _ _ chain _ => chain.length
  | .prior _ _ chain _ priorWitness => chain.length + witnessTotalUnits priorWitness

/-- `_witness_units_to_checkpoint`; `⊤` is `inf`. -/
def witnessUnitsToCheckpoint : WitnessV2 H → WithTop ℕ
  | .genesis _ _ _ _ => ⊤
  | .checkpoint _ _ chain _ => chain.length
  | .prior _ _ chain _ priorWitness => chain.length + witnessUnitsToCheckpoint priorWitness

/-! ## Costs -/

/-- What a plan costs before its ranges are looked at. -/
abbrev PlanCost := ℕ ×ₗ ℕ ×ₗ ℕ ×ₗ WithTop ℕ ×ₗ ℕ ×ₗ ℤ

section Cost

variable (address : Address) (checkpoints : List (Checkpoint H))
  (spendable : List (LocalValueRecord H))

/-- The sum over the entries of a plan of a number that depends on the record and on the size taken
from it. -/
def planSum {M : Type} [AddMonoid M] (term : LocalValueRecord H → ℕ → M) (plan : Plan) : M :=
  (plan.map fun entry =>
    match spendable[entry.1]? with
    | none => 0
    | some record => term record entry.2).sum

/-- `split_count`. -/
def splitCount (plan : Plan) : ℕ :=
  planSum spendable (fun record take => if take < record.value.size then 1 else 0) plan

/-- `checkpoint_miss_count`. -/
def checkpointMissCount (plan : Plan) : ℕ :=
  planSum spendable
    (fun record _ => if hasExactLocalCheckpoint address checkpoints record then 0 else 1) plan

/-- What a record adds to `effective_anchor_cost`. -/
def anchorCost (record : LocalValueRecord H) : WithTop ℕ :=
  if hasExactLocalCheckpoint address checkpoints record then 0
  else witnessUnitsToCheckpoint record.witnessV2

/-- `effective_anchor_cost`. -/
def effectiveAnchorCost (plan : Plan) : WithTop ℕ :=
  planSum spendable (fun record _ => anchorCost address checkpoints record) plan

/-- `total_witness_units`. -/
def totalWitnessUnits (plan : Plan) : ℕ :=
  planSum spendable (fun record _ => witnessTotalUnits record.witnessV2) plan

/-- `freshness_penalty`. -/
def freshnessPenalty (plan : Plan) : ℤ :=
  planSum spendable (fun record _ => -(record.acquisitionHeight : ℤ)) plan

/-- `tuple(sorted(range_order))`. -/
def rangeOrder (plan : Plan) : List (ℕ ×ₗ ℕ) :=
  (plan.filterMap fun entry =>
    (spendable[entry.1]?).map fun record => toLex (record.value.valueBegin, entry.2)).insertionSort
    (· ≤ ·)

/-- The first six components of `_selection_plan_cost`. -/
def planCost (plan : Plan) : PlanCost :=
  toLex (plan.length, toLex (splitCount spendable plan,
    toLex (checkpointMissCount address checkpoints spendable plan,
      toLex (effectiveAnchorCost address checkpoints spendable plan,
        toLex (totalWitnessUnits spendable plan, freshnessPenalty spendable plan)))))

/-- `_selection_plan_cost`. -/
def selectionPlanCost (plan : Plan) : PlanCost ×ₗ List (ℕ ×ₗ ℕ) :=
  toLex (planCost address checkpoints spendable plan, rangeOrder spendable plan)

/-- The loop of `select_payment_ranges`: `best_plan` after all records. -/
def selectPlan (amount : ℕ) : Option Plan :=
  (run (selectionPlanCost address checkpoints spendable) amount
    (spendable.map fun record => record.value.size)).best

end Cost

/-! ## Selection -/

/-- The range that an entry of a plan takes. -/
def selectedRange (spendable : List (LocalValueRecord H)) (entry : ℕ × ℕ) :
    Except String ValueRange := do
  let record ← demand spendable[entry.1]? "tuple index out of range"
  ValueRange.ofInts record.value.valueBegin (record.value.valueBegin + entry.2 - 1)

/-- `select_payment_ranges`. -/
def selectPaymentRanges (address : Address) (checkpoints : List (Checkpoint H))
    (records : List (LocalValueRecord H)) (amount : ℤ) : Except String (List ValueRange) := do
  require (0 < amount) "amount must be positive"
  let spendable := sortedSpendableRecords records
  let bestPlan ← demand (selectPlan address checkpoints spendable amount.toNat)
    "insufficient_balance"
  let selected ← bestPlan.mapM (selectedRange spendable)
  pure (selected.insertionSort rangeLe)

/-! ## What is selected -/

/-- The records that selection may use. -/
def spendableRecords (records : List (LocalValueRecord H)) : List (LocalValueRecord H) :=
  records.filter fun record => record.localStatus = .verifiedSpendable

/-- Balance of the spendable records. -/
def spendableTotal (records : List (LocalValueRecord H)) : ℕ :=
  ((spendableRecords records).map fun record => record.value.size).sum

theorem sortedSpendableRecords_perm (records : List (LocalValueRecord H)) :
    (sortedSpendableRecords records).Perm (spendableRecords records) :=
  List.perm_insertionSort _ _

theorem sizes_pos (spendable : List (LocalValueRecord H)) :
    ∀ size ∈ spendable.map fun record => record.value.size, 0 < size := by
  intro size member
  obtain ⟨record, -, rfl⟩ := List.mem_map.mp member
  exact Nat.succ_pos _

theorem sum_sortedSpendableRecords (records : List (LocalValueRecord H)) :
    ((sortedSpendableRecords records).map fun record => record.value.size).sum =
      spendableTotal records :=
  ((sortedSpendableRecords_perm records).map _).sum_eq

/-- A part of a record at its start. -/
theorem selectedRange_eq_ok {spendable : List (LocalValueRecord H)} {entry : ℕ × ℕ}
    {record : LocalValueRecord H} (found : spendable[entry.1]? = some record)
    (positive : 0 < entry.2) (within : entry.2 ≤ record.value.size) :
    ∃ range, selectedRange spendable entry = .ok range ∧ range.size = entry.2 ∧
      record.value.containsRange range = true := by
  have ordered := record.value.begin_le_end
  rw [ValueRange.size] at within
  refine ⟨⟨record.value.valueBegin, record.value.valueBegin + entry.2 - 1, by omega⟩, ?_, ?_, ?_⟩
  · apply bind_eq_ok.mpr
    refine ⟨record, demand_eq_ok.mpr found, ValueRange.ofInts_eq_ok_iff.mpr ⟨rfl, ?_⟩⟩
    dsimp only
    omega
  · simp only [ValueRange.size]
    omega
  · rw [ValueRange.containsRange_iff]
    dsimp only
    omega

theorem mapM_selectedRange {spendable chosen : List (LocalValueRecord H)} {plan : Plan}
    (holds : List.Forall₂ (fun record (entry : ℕ × ℕ) => spendable[entry.1]? = some record ∧
      0 < entry.2 ∧ entry.2 ≤ record.value.size) chosen plan) :
    ∃ selected, plan.mapM (selectedRange spendable) = .ok selected ∧
      (selected.map ValueRange.size).sum = total plan ∧
      List.Forall₂ (fun record range => record.value.containsRange range = true)
        chosen selected := by
  induction holds with
  | nil => exact ⟨[], rfl, rfl, .nil⟩
  | @cons record entry chosen plan head tail induction =>
      obtain ⟨range, range_eq, size_eq, inside⟩ :=
        selectedRange_eq_ok head.1 head.2.1 head.2.2
      obtain ⟨selected, selected_eq, sum_eq, all_inside⟩ := induction
      refine ⟨range :: selected, ?_, ?_, .cons inside all_inside⟩
      · exact mapM_eq_ok.mpr (.cons range_eq (mapM_eq_ok.mp selected_eq))
      · rw [List.map_cons, List.sum_cons, size_eq, sum_eq]
        rfl

theorem pairwise_inside {chosen : List (LocalValueRecord H)} {selected : List ValueRange}
    (inside : List.Forall₂ (fun record range => record.value.containsRange range = true)
      chosen selected)
    (apart : chosen.Pairwise fun left right => left.value.intersects right.value = false) :
    selected.Pairwise fun left right => left.intersects right = false := by
  induction inside with
  | nil => exact .nil
  | @cons record range chosen selected head tail induction =>
      obtain ⟨first, rest⟩ := List.pairwise_cons.mp apart
      refine List.pairwise_cons.mpr ⟨fun other member => ?_, induction rest⟩
      obtain ⟨holder, holder_mem, holder_inside⟩ := exists_related tail.flip member
      have holders_apart := first holder holder_mem
      rw [← Bool.not_eq_true, ValueRange.intersects_iff] at holders_apart ⊢
      rw [ValueRange.containsRange_iff] at head holder_inside
      omega

theorem selectPlan_makesUp {address : Address} {checkpoints : List (Checkpoint H)}
    {spendable : List (LocalValueRecord H)} {amount : ℕ} (positive : 0 < amount) {plan : Plan}
    (selected : selectPlan address checkpoints spendable amount = some plan) :
    MakesUp amount (spendable.map fun record => record.value.size) plan :=
  (run_sound (sizes_pos spendable) positive).best plan selected

theorem selectPlan_eq_none_iff (address : Address) (checkpoints : List (Checkpoint H))
    (records : List (LocalValueRecord H)) {amount : ℕ} (positive : 0 < amount) :
    selectPlan address checkpoints (sortedSpendableRecords records) amount = none ↔
      spendableTotal records < amount := by
  rw [← sum_sortedSpendableRecords]
  exact best_eq_none_iff (sizes_pos _) positive

theorem lt_of_rangeLe {left right : ValueRange} (le : rangeLe left right)
    (apart : left.intersects right = false) : left.valueEnd < right.valueBegin := by
  have left_le := left.begin_le_end
  have right_le := right.begin_le_end
  rw [← Bool.not_eq_true, ValueRange.intersects_iff] at apart
  rw [rangeLe] at le
  omega

/-- What `select_payment_ranges` promises: ranges of the amount, one behind the other, each inside
a spendable record of its own. -/
structure PaymentRanges (records : List (LocalValueRecord H)) (amount : ℤ)
    (ranges : List ValueRange) : Prop where
  /-- The sizes sum up to the amount. -/
  sum_eq : ((ranges.map ValueRange.size).sum : ℤ) = amount
  /-- The ranges are sorted and disjoint. -/
  ordered : ranges.Pairwise fun left right => left.valueEnd < right.valueBegin
  /-- Each range lies in another spendable record. -/
  holders : ∃ holders, holders.Subperm (spendableRecords records) ∧
    List.Forall₂ (fun record range => record.value.containsRange range = true) holders ranges

/-- The plan for the amount is turned into ranges. -/
theorem selectPaymentRanges_of_plan {address : Address} {checkpoints : List (Checkpoint H)}
    {records : List (LocalValueRecord H)} {amount : ℤ} (positive : 0 < amount)
    (apart : (spendableRecords records).Pairwise fun left right =>
      left.value.intersects right.value = false) {plan : Plan}
    (planned : selectPlan address checkpoints (sortedSpendableRecords records) amount.toNat =
      some plan) :
    ∃ ranges, selectPaymentRanges address checkpoints records amount = .ok ranges ∧
      PaymentRanges records amount ranges := by
  have makes := selectPlan_makesUp (by omega) planned
  have taken : ∀ entry ∈ plan, ∃ record,
      (sortedSpendableRecords records)[entry.1]? = some record ∧
        0 < entry.2 ∧ entry.2 ≤ record.value.size := by
    intro entry member
    obtain ⟨size, found, take_pos, take_le⟩ := makes.taken (sizes_pos _) entry member
    rw [List.getElem?_map] at found
    obtain ⟨record, record_eq, rfl⟩ := Option.map_eq_some_iff.mp found
    exact ⟨record, record_eq, take_pos, take_le⟩
  obtain ⟨chosen, sublist, found⟩ := exists_chosen makes.increasing taken
  obtain ⟨selected, selected_eq, sum_eq, inside⟩ := mapM_selectedRange found
  have perm := List.perm_insertionSort rangeLe selected
  have chosen_apart : chosen.Pairwise fun left right =>
      left.value.intersects right.value = false := by
    have sorted_apart := (sortedSpendableRecords_perm records).symm.pairwise apart
      fun left_apart => by rw [ValueRange.intersects_comm, left_apart]
    exact sorted_apart.sublist sublist
  refine ⟨selected.insertionSort rangeLe, ?_, ?_, ?_, ?_⟩
  · simp only [selectPaymentRanges, bind_eq_ok, require_eq_ok, demand_eq_ok, pure_eq_ok,
      exists_unit]
    exact ⟨positive, plan, planned, selected, selected_eq, rfl⟩
  · rw [(perm.map ValueRange.size).sum_eq, sum_eq, makes.total_eq]
    omega
  · have selected_apart := perm.symm.pairwise (pairwise_inside inside chosen_apart)
      fun left_apart => by rw [ValueRange.intersects_comm, left_apart]
    exact ((List.pairwise_insertionSort rangeLe selected).and selected_apart).imp
      fun both => lt_of_rangeLe both.1 both.2
  · obtain ⟨holders, holders_inside, holders_perm⟩ := List.perm_comp_forall₂ perm inside.flip
    have spendable_perm := sortedSpendableRecords_perm records
    exact ⟨holders, holders_perm.subperm.trans (sublist.subperm.trans spendable_perm.subperm),
      holders_inside.flip⟩

/-- Selection returns exact ranges of the amount, or it raises `insufficient_balance`, and it does
the latter exactly when the spendable records do not reach the amount. -/
theorem selectPaymentRanges_sound_complete {address : Address} {checkpoints : List (Checkpoint H)}
    {records : List (LocalValueRecord H)} {amount : ℤ} (positive : 0 < amount)
    (apart : (spendableRecords records).Pairwise fun left right =>
      left.value.intersects right.value = false) :
    ((∃ ranges, selectPaymentRanges address checkpoints records amount = .ok ranges ∧
        PaymentRanges records amount ranges) ∨
      selectPaymentRanges address checkpoints records amount = .error "insufficient_balance") ∧
    (selectPaymentRanges address checkpoints records amount = .error "insufficient_balance" ↔
      (spendableTotal records : ℤ) < amount) := by
  have amount_pos : 0 < amount.toNat := by omega
  have short_iff := selectPlan_eq_none_iff address checkpoints records amount_pos
  cases planned : selectPlan address checkpoints (sortedSpendableRecords records) amount.toNat with
  | none =>
      have raised : selectPaymentRanges address checkpoints records amount =
          .error "insufficient_balance" := by
        rw [selectPaymentRanges]
        dsimp only
        rw [require_of positive, planned]
        rfl
      have short := short_iff.mp planned
      exact ⟨.inr raised, iff_of_true raised (by omega)⟩
  | some plan =>
      obtain ⟨ranges, selected, promised⟩ := selectPaymentRanges_of_plan positive apart planned
      have not_short : ¬ spendableTotal records < amount.toNat := by
        intro short
        have none_found : selectPlan address checkpoints (sortedSpendableRecords records)
          amount.toNat = none := short_iff.mpr short
        rw [planned] at none_found
        cases none_found
      refine ⟨.inl ⟨ranges, selected, promised⟩, iff_of_false ?_ (by omega)⟩
      rw [selected]
      nofun

/-! ## The cheapest plan -/

section Optimality

variable {address : Address} {checkpoints : List (Checkpoint H)}
  {spendable : List (LocalValueRecord H)}

theorem planSum_concat {M : Type} [AddMonoid M] (term : LocalValueRecord H → ℕ → M) (plan : Plan)
    (item : ℕ × ℕ) : planSum spendable term (plan ++ [item]) =
      planSum spendable term plan + planSum spendable term [item] := by
  simp [planSum]

/-- One record more keeps the order of two plans, unless it has no checkpoint anchor and one of the
plans is ahead by its anchor cost alone. -/
theorem planCost_concat_le {other earlier : Plan}
    (le : planCost address checkpoints spendable other ≤
      planCost address checkpoints spendable earlier) (item : ℕ × ℕ)
    (not_absorbed : effectiveAnchorCost address checkpoints spendable [item] = ⊤ →
      other.length = earlier.length →
      checkpointMissCount address checkpoints spendable other =
        checkpointMissCount address checkpoints spendable earlier →
      effectiveAnchorCost address checkpoints spendable other <
        effectiveAnchorCost address checkpoints spendable earlier →
      toLex (totalWitnessUnits spendable other, freshnessPenalty spendable other) ≤
        toLex (totalWitnessUnits spendable earlier, freshnessPenalty spendable earlier)) :
    planCost address checkpoints spendable (other ++ [item]) ≤
      planCost address checkpoints spendable (earlier ++ [item]) := by
  unfold planCost at le ⊢
  simp only [Prod.Lex.toLex_le_toLex, List.length_append, List.length_singleton, splitCount,
    checkpointMissCount, effectiveAnchorCost, totalWitnessUnits, freshnessPenalty,
    planSum_concat _ other, planSum_concat _ earlier] at le not_absorbed ⊢
  rcases le with shorter | ⟨length_eq, fewer_splits | ⟨splits_eq, fewer_misses |
    ⟨misses_eq, nearer | ⟨anchor_eq, rest⟩⟩⟩⟩
  · exact .inl (by omega)
  · exact .inr ⟨by omega, .inl (by omega)⟩
  · exact .inr ⟨by omega, .inr ⟨by omega, .inl (by omega)⟩⟩
  · refine .inr ⟨by omega, .inr ⟨by omega, .inr ⟨by omega, ?_⟩⟩⟩
    by_cases infinite : planSum spendable
        (fun record _ => anchorCost address checkpoints record) [item] = ⊤
    · rw [infinite, WithTop.add_top, WithTop.add_top]
      have rest := not_absorbed infinite length_eq misses_eq nearer
      exact .inr ⟨rfl, by omega⟩
    · exact .inl ((WithTop.add_lt_add_iff_right infinite).mpr nearer)
  · refine .inr ⟨by omega, .inr ⟨by omega, .inr ⟨by omega, .inr ⟨by rw [anchor_eq], ?_⟩⟩⟩⟩
    omega

/-- A plan of whole records and at most one part of a record that makes up the amount. -/
structure PaymentPlan (spendable : List (LocalValueRecord H)) (amount : ℕ) (plan : Plan) :
    Prop where
  /-- No record is used twice. -/
  distinct : (plan.map Prod.fst).Nodup
  /-- Something is taken from each record, and no more than there is. -/
  taken : ∀ entry ∈ plan, ∃ record, spendable[entry.1]? = some record ∧ 0 < entry.2 ∧
    entry.2 ≤ record.value.size
  /-- At most one record is split. -/
  one_split : splitCount spendable plan ≤ 1
  /-- The sizes sum up to the amount. -/
  sum_eq : total plan = amount

/-- No plan of whole records is ahead of an earlier part of the plan by its anchor cost alone when
the record that follows has no checkpoint anchor and makes both anchor costs infinite. -/
def NotOvertaken (address : Address) (checkpoints : List (Checkpoint H))
    (spendable : List (LocalValueRecord H)) (plan : Plan) : Prop :=
  ∀ earlier item later, plan = earlier ++ item :: later →
    ∀ record, spendable[item.1]? = some record → anchorCost address checkpoints record = ⊤ →
    ∀ other, Whole ((spendable.map fun record => record.value.size).take item.1) other →
      total other = total earlier → other.length = earlier.length →
      checkpointMissCount address checkpoints spendable other =
        checkpointMissCount address checkpoints spendable earlier →
      effectiveAnchorCost address checkpoints spendable other <
        effectiveAnchorCost address checkpoints spendable earlier →
      toLex (totalWitnessUnits spendable other, freshnessPenalty spendable other) ≤
        toLex (totalWitnessUnits spendable earlier, freshnessPenalty spendable earlier)

theorem tracked_of_notOvertaken {plan : Plan}
    (not_overtaken : NotOvertaken address checkpoints spendable plan) :
    Tracked (planCost address checkpoints spendable)
      (spendable.map fun record => record.value.size) plan := by
  intro earlier item later plan_eq other whole sum_eq le
  apply planCost_concat_le le
  intro infinite
  cases found : spendable[item.1]? with
  | none =>
      have anchor_eq : effectiveAnchorCost address checkpoints spendable [item] = 0 := by
        simp only [effectiveAnchorCost, planSum, List.map_cons, List.map_nil, List.sum_cons,
          List.sum_nil, add_zero, found]
      exact absurd (anchor_eq.symm.trans infinite) WithTop.zero_ne_top
  | some record =>
      have anchor_eq : effectiveAnchorCost address checkpoints spendable [item] =
          anchorCost address checkpoints record := by
        simp only [effectiveAnchorCost, planSum, List.map_cons, List.map_nil, List.sum_cons,
          List.sum_nil, add_zero, found]
      exact not_overtaken earlier item later plan_eq record found (anchor_eq.symm.trans infinite)
        other whole sum_eq

theorem splitCount_of_whole {plan : Plan}
    (whole : Whole (spendable.map fun record => record.value.size) plan) :
    splitCount spendable plan = 0 := by
  unfold splitCount planSum
  apply List.sum_eq_zero
  intro count member
  obtain ⟨entry, entry_mem, rfl⟩ := List.mem_map.mp member
  have taken := whole.taken entry entry_mem
  rw [List.getElem?_map] at taken
  obtain ⟨record, record_eq, size_eq⟩ := Option.map_eq_some_iff.mp taken
  rw [record_eq]
  dsimp only
  rw [if_neg (by omega)]

theorem splitCount_concat (spendable : List (LocalValueRecord H)) (plan : Plan) (item : ℕ × ℕ) :
    splitCount spendable (plan ++ [item]) ≤ splitCount spendable plan + 1 := by
  have last_le : splitCount spendable [item] ≤ 1 := by
    simp only [splitCount, planSum, List.map_cons, List.map_nil, List.sum_cons, List.sum_nil,
      Nat.add_zero]
    split
    · exact Nat.zero_le 1
    · split
      · exact le_rfl
      · exact Nat.zero_le 1
  unfold splitCount at last_le ⊢
  rw [planSum_concat]
  exact Nat.add_le_add_left last_le _

/-- A plan that ends with a part of a record is a payment plan. -/
theorem paymentPlan_of_makesUp {amount : ℕ} {plan : Plan}
    (makes : MakesUp amount (spendable.map fun record => record.value.size) plan) :
    PaymentPlan spendable amount plan := by
  constructor
  · rw [List.nodup_iff_pairwise_ne, List.pairwise_map]
    exact makes.increasing.imp Nat.ne_of_lt
  · intro entry member
    obtain ⟨size, found, take_pos, take_le⟩ := makes.taken (sizes_pos _) entry member
    rw [List.getElem?_map] at found
    obtain ⟨record, record_eq, rfl⟩ := Option.map_eq_some_iff.mp found
    exact ⟨record, record_eq, take_pos, take_le⟩
  · obtain ⟨earlier, index, take, size, rfl, whole, -⟩ := makes
    have bound := splitCount_concat spendable earlier (index, take)
    rwa [splitCount_of_whole whole.of_take] at bound
  · exact makes.total_eq

/-- Some plan of least cost, with its split in the last record, is nowhere overtaken. -/
def CheapestNotOvertaken (address : Address) (checkpoints : List (Checkpoint H))
    (spendable : List (LocalValueRecord H)) (amount : ℕ) : Prop :=
  ∃ plan, MakesUp amount (spendable.map fun record => record.value.size) plan ∧
    (∀ other, PaymentPlan spendable amount other →
      planCost address checkpoints spendable plan ≤ planCost address checkpoints spendable other) ∧
    NotOvertaken address checkpoints spendable plan

/-- No payment plan undercuts the plan that is selected. -/
def SelectsCheapest (address : Address) (checkpoints : List (Checkpoint H))
    (spendable : List (LocalValueRecord H)) (amount : ℕ) : Prop :=
  ∀ plan, selectPlan address checkpoints spendable amount = some plan →
    ∀ other, PaymentPlan spendable amount other →
      ¬ planCost address checkpoints spendable other < planCost address checkpoints spendable plan

theorem planCost_le_of_selectionPlanCost_le {plan other : Plan}
    (le : selectionPlanCost address checkpoints spendable plan ≤
      selectionPlanCost address checkpoints spendable other) :
    planCost address checkpoints spendable plan ≤ planCost address checkpoints spendable other := by
  rcases Prod.Lex.toLex_le_toLex.mp le with lt | ⟨eq, -⟩
  · exact le_of_lt lt
  · exact le_of_eq eq

theorem selectsCheapest_of_notOvertaken {amount : ℕ} (positive : 0 < amount)
    (cheapest : CheapestNotOvertaken address checkpoints spendable amount) :
    SelectsCheapest address checkpoints spendable amount := by
  obtain ⟨plan, makes, least, not_overtaken⟩ := cheapest
  obtain ⟨kept, kept_eq, kept_le⟩ := best_rank_le (fun _ _ => planCost_le_of_selectionPlanCost_le)
    (sizes_pos spendable) positive makes (tracked_of_notOvertaken not_overtaken)
  intro selected selected_eq other payment
  obtain rfl := Option.some.inj (kept_eq.symm.trans selected_eq)
  exact not_lt_of_ge (kept_le.trans (least other payment))

theorem anchorCost_ne_top {plan : Plan}
    (finite : effectiveAnchorCost address checkpoints spendable plan ≠ ⊤) {item : ℕ × ℕ}
    (member : item ∈ plan) {record : LocalValueRecord H}
    (found : spendable[item.1]? = some record) :
    anchorCost address checkpoints record ≠ ⊤ := by
  intro infinite
  obtain ⟨front, back, rfl⟩ := List.append_of_mem member
  apply finite
  simp only [effectiveAnchorCost, planSum, List.map_append, List.map_cons, List.sum_append,
    List.sum_cons, found, infinite, WithTop.top_add, WithTop.add_top]

/-- The table keeps a plan at most as dear as any plan of finite anchor cost for the sum. -/
theorem kept_le_of_finite {amount bound : ℕ} (positive : 0 < amount) {earlier other : Plan}
    (kept : (run (selectionPlanCost address checkpoints spendable) amount
      ((spendable.map fun record => record.value.size).take bound)).exact.get? (total earlier) =
        some earlier)
    (whole : Whole ((spendable.map fun record => record.value.size).take bound) other)
    (sum_eq : total other = total earlier)
    (finite : effectiveAnchorCost address checkpoints spendable other ≠ ⊤) :
    planCost address checkpoints spendable earlier ≤
      planCost address checkpoints spendable other := by
  have front_pos : ∀ size ∈ (spendable.map fun record => record.value.size).take bound,
      0 < size := fun size member => sizes_pos spendable size (List.mem_of_mem_take member)
  have not_overtaken : NotOvertaken address checkpoints spendable other := by
    intro front item back other_eq record found infinite
    have member : item ∈ other := by
      rw [other_eq]
      exact List.mem_append_right _ List.mem_cons_self
    exact absurd infinite (anchorCost_ne_top finite member found)
  have inside : ∀ item ∈ other, item.1 ≤ bound := by
    intro item member
    have item_lt := whole.index_lt member
    rw [List.length_take] at item_lt
    omega
  have fits := ((run_sound front_pos positive).exact _ _ kept).2.2
  obtain ⟨found, found_eq, found_le⟩ := exact_rank_le
    (fun _ _ => planCost_le_of_selectionPlanCost_le) front_pos positive whole
    ((tracked_of_notOvertaken not_overtaken).take inside) (by omega)
  rw [sum_eq] at found_eq
  obtain rfl := Option.some.inj (found_eq.symm.trans kept)
  exact found_le

/-- An optimal selection was nowhere overtaken: a plan that is ahead by its anchor cost has a finite
one, and the table would have kept it. -/
theorem notOvertaken_of_selectsCheapest {amount : ℕ} (positive : 0 < amount)
    (payable : amount ≤ (spendable.map fun record => record.value.size).sum)
    (selects : SelectsCheapest address checkpoints spendable amount) :
    CheapestNotOvertaken address checkpoints spendable amount := by
  cases selected : selectPlan address checkpoints spendable amount with
  | none =>
      have short := (best_eq_none_iff (sizes_pos spendable) positive).mp selected
      omega
  | some plan =>
      refine ⟨plan, selectPlan_makesUp positive selected,
        fun other payment => le_of_not_gt (selects plan selected other payment), ?_⟩
      intro earlier item later plan_eq record found infinite other whole sum_eq length_eq
        misses_eq nearer
      have kept := run_retained (sizes_pos spendable) positive selected earlier item later plan_eq
      have le := kept_le_of_finite positive kept whole sum_eq (ne_top_of_lt nearer)
      have front_pos : ∀ size ∈ (spendable.map fun record => record.value.size).take item.1,
          0 < size := fun size member => sizes_pos spendable size (List.mem_of_mem_take member)
      have earlier_whole := ((run_sound front_pos positive).exact _ _ kept).1
      -- The kept plan would be dearer, since the two differ by the anchor cost first.
      unfold planCost at le
      simp only [Prod.Lex.toLex_le_toLex, splitCount_of_whole whole.of_take,
        splitCount_of_whole earlier_whole.of_take, length_eq, misses_eq, lt_self_iff_false,
        true_and, false_or] at le
      rcases le with farther | ⟨anchor_eq, -⟩
      · exact absurd nearer (lt_asymm farther)
      · exact absurd anchor_eq.symm (ne_of_lt nearer)

end Optimality

/-- The selected plan of a payable amount is a cheapest one exactly when a cheapest plan is nowhere
overtaken by a plan that is ahead by its anchor cost alone. -/
theorem selectPlan_cheapest_iff (address : Address) (checkpoints : List (Checkpoint H))
    (records : List (LocalValueRecord H)) {amount : ℕ} (positive : 0 < amount)
    (payable : amount ≤ spendableTotal records) :
    SelectsCheapest address checkpoints (sortedSpendableRecords records) amount ↔
      CheapestNotOvertaken address checkpoints (sortedSpendableRecords records) amount := by
  rw [← sum_sortedSpendableRecords] at payable
  exact ⟨notOvertaken_of_selectsCheapest positive payable,
    selectsCheapest_of_notOvertaken positive⟩

/-! ## A wallet with an overtaken plan -/

section Examples

open SymbolicDigest

/-- A bundle without transfers and its receipt. -/
def idleUnit : ConfirmedBundleUnit SymbolicDigest where
  receipt := {
    headerLite := ⟨1, filled 1, filled 2⟩
    seq := 1
    prevRef := none
    claimSetHash := none
    proof := .single ⟨[], true⟩
    seq_pos := Nat.one_pos }
  bundleSidecar := ⟨alice, [], List.forall_mem_nil _⟩

/-- A checkpoint for a value of Alice. -/
def checkpointFor (value : ValueRange) : Checkpoint SymbolicDigest where
  valueBegin := value.valueBegin
  valueEnd := value.valueEnd
  ownerAddr := alice
  checkpointHeight := 1
  checkpointBlockHash := filled 1
  checkpointBundleHash := filled 3
  begin_le_end := value.begin_le_end

/-- A spendable record whose history goes back to a checkpoint. -/
def anchoredRecord (recordId : String) (value : ValueRange) (bundles : ℕ) :
    LocalValueRecord SymbolicDigest where
  recordId := recordId
  value := value
  witnessV2 := .checkpoint value alice (List.replicate bundles idleUnit) (checkpointFor value)
  localStatus := .verifiedSpendable
  acquisitionHeight := 1

/-- A spendable record whose history goes back to the genesis block. -/
def unanchoredRecord (recordId : String) (value : ValueRange) (bundles : ℕ) :
    LocalValueRecord SymbolicDigest where
  recordId := recordId
  value := value
  witnessV2 := .genesis value alice (List.replicate bundles idleUnit)
    ⟨filled 1, alice, value.valueBegin, value.valueEnd, value.begin_le_end_int⟩
  localStatus := .verifiedSpendable
  acquisitionHeight := 1

/-- Five records of sizes 3, 1, 2, 4 and 7, in the order of selection. -/
def fiveRecords : List (LocalValueRecord SymbolicDigest) :=
  [anchoredRecord "three" ⟨0, 2, by decide⟩ 0, anchoredRecord "one" ⟨3, 3, by decide⟩ 1,
    anchoredRecord "two" ⟨4, 5, by decide⟩ 2, anchoredRecord "four" ⟨6, 9, by decide⟩ 3,
    unanchoredRecord "seven" ⟨10, 16, by decide⟩ 4]

/-- The wallet holds checkpoints for the records of sizes 3 and 4. -/
def twoCheckpoints : List (Checkpoint SymbolicDigest) :=
  [checkpointFor ⟨0, 2, by decide⟩, checkpointFor ⟨6, 9, by decide⟩]

theorem sortedSpendableRecords_fiveRecords : sortedSpendableRecords fiveRecords = fiveRecords := by
  have sorted : fiveRecords.Pairwise fun left right => spendableKey left ≤ spendableKey right := by
    decide +kernel
  exact sorted.insertionSort_eq

theorem fiveRecords_apart : (spendableRecords fiveRecords).Pairwise fun left right =>
    left.value.intersects right.value = false := by
  decide +kernel

/-- The five records pay 12 atoms, in ranges of three of them. -/
theorem selectPaymentRanges_fiveRecords :
    (∃ ranges, selectPaymentRanges alice twoCheckpoints fiveRecords 12 = .ok ranges ∧
        PaymentRanges fiveRecords 12 ranges) ∨
      selectPaymentRanges alice twoCheckpoints fiveRecords 12 = .error "insufficient_balance" :=
  (selectPaymentRanges_sound_complete (by decide) fiveRecords_apart).1

/-- The plans `1 + 4` and `3 + 2` compete for the sum 5.  The first is ahead by its anchor cost,
which no longer counts when the record of size 7 is added. -/
theorem selectPlan_not_cheapest :
    ¬ SelectsCheapest alice twoCheckpoints (sortedSpendableRecords fiveRecords) 12 := by
  rw [sortedSpendableRecords_fiveRecords]
  intro selects
  have selected : selectPlan alice twoCheckpoints fiveRecords 12 =
    some [(1, 1), (3, 4), (4, 7)] := by decide +kernel
  have payment : PaymentPlan fiveRecords 12 [(0, 3), (2, 2), (4, 7)] := by
    constructor
    · decide
    · intro entry member
      simp only [List.mem_cons, List.not_mem_nil, or_false] at member
      rcases member with rfl | rfl | rfl <;> exact ⟨_, rfl, by decide, by decide⟩
    · decide +kernel
    · rfl
  apply selects _ selected _ payment
  decide +kernel

/-- The amounts 10 and 12 of the five records, which are worth 17 in all. -/
theorem selectPlan_cheapest_fiveRecords :
    (SelectsCheapest alice twoCheckpoints (sortedSpendableRecords fiveRecords) 10 ↔
        CheapestNotOvertaken alice twoCheckpoints (sortedSpendableRecords fiveRecords) 10) ∧
      (SelectsCheapest alice twoCheckpoints (sortedSpendableRecords fiveRecords) 12 ↔
        CheapestNotOvertaken alice twoCheckpoints (sortedSpendableRecords fiveRecords) 12) := by
  have total : spendableTotal fiveRecords = 17 := by decide +kernel
  exact ⟨selectPlan_cheapest_iff alice twoCheckpoints _ (by decide) (by omega),
    selectPlan_cheapest_iff alice twoCheckpoints _ (by decide) (by omega)⟩

end Examples

end EZChain
