import EZChain.Library.OrderedDict
import Mathlib.Algebra.BigOperators.Group.List.Basic
import Mathlib.Algebra.GroupWithZero.Nat
import Mathlib.Algebra.Order.Group.Nat
import Mathlib.Data.List.Forall2
import Mathlib.Data.List.Induction

/-!
# Subset sums with a kept plan for each sum

Items with sizes are added one after the other to a table that keeps, for each sum it can reach
without exceeding an amount, the cheapest plan seen so far.  A plan lists positions of items with
the size taken from each.  Besides, the last item of a plan may be split to make up the amount, and
the cheapest plan that makes it up is kept apart.

The table reaches every sum of whole items, because sums are never lost.  A kept plan costs no more
than a given one if extending plans by an item does not reverse their order along the given one.
-/

namespace TableSelection

/-- Positions of items, and how much is taken from each. -/
abbrev Plan := List (ℕ × ℕ)

/-- What a plan takes in total. -/
def total (plan : Plan) : ℕ :=
  (plan.map Prod.snd).sum

@[simp]
theorem total_nil : total [] = 0 := rfl

@[simp]
theorem total_concat (plan : Plan) (item : ℕ × ℕ) :
    total (plan ++ [item]) = total plan + item.2 := by
  simp [total]

/-! ## The table -/

/-- The plans kept for each sum, and the best plan for the amount. -/
structure Table where
  /-- Plans of whole items by their sums. -/
  exact : OrderedDict ℕ Plan
  /-- The best plan for the amount. -/
  best : Option Plan

/-- The table before any item: nothing is taken for the sum 0. -/
def Table.initial : Table :=
  ⟨OrderedDict.set ∅ 0 [], none⟩

section Algorithm

variable {C : Type} [LinearOrder C] (cost : Plan → C) (amount : ℕ)

/-- Keep the cheaper plan, and the old one when the costs are equal. -/
def cheaper (best : Option Plan) (candidate : Plan) : Plan :=
  match best with
  | none => candidate
  | some plan => if cost candidate < cost plan then candidate else plan

/-- Split the item to make up the amount from each sum. -/
def considerSplits (index size : ℕ) (prior : List (ℕ × Plan)) (best : Option Plan) : Option Plan :=
  prior.foldl
    (fun best entry =>
      let remaining := amount - entry.1
      if 0 < remaining ∧ remaining < size then
        some (cheaper cost best (entry.2 ++ [(index, remaining)]))
      else best)
    best

/-- Add the whole item to the plan of each sum. -/
def addWhole (index size : ℕ) (prior : List (ℕ × Plan)) (exact : OrderedDict ℕ Plan) :
    OrderedDict ℕ Plan :=
  prior.foldl
    (fun exact entry =>
      let newTotal := entry.1 + size
      if amount < newTotal then exact
      else exact.set newTotal (cheaper cost (exact.get? newTotal) (entry.2 ++ [(index, size)])))
    exact

/-- One item. -/
def step (table : Table) (index size : ℕ) : Table :=
  let prior := table.exact.entries
  let best := considerSplits cost amount index size prior table.best
  let exact := addWhole cost amount index size prior table.exact
  match exact.get? amount with
  | none => ⟨exact, best⟩
  | some plan => ⟨exact, some (cheaper cost best plan)⟩

/-- All items in their order. -/
def run (sizes : List ℕ) : Table :=
  sizes.zipIdx.foldl (fun table item => step cost amount table item.2 item.1) .initial

theorem run_concat (sizes : List ℕ) (size : ℕ) :
    run cost amount (sizes ++ [size]) =
      step cost amount (run cost amount sizes) sizes.length size := by
  simp [run, List.zipIdx_append]

end Algorithm

/-! ## Plans of whole items -/

/-- A plan that takes whole items, in the order of their positions. -/
structure Whole (sizes : List ℕ) (plan : Plan) : Prop where
  /-- Positions increase. -/
  increasing : plan.Pairwise fun left right => left.1 < right.1
  /-- Items are taken as a whole. -/
  taken : ∀ item ∈ plan, sizes[item.1]? = some item.2

theorem whole_nil (sizes : List ℕ) : Whole sizes [] :=
  ⟨List.Pairwise.nil, List.forall_mem_nil _⟩

theorem Whole.index_lt {sizes : List ℕ} {plan : Plan} (whole : Whole sizes plan) {item : ℕ × ℕ}
    (member : item ∈ plan) : item.1 < sizes.length :=
  (List.getElem?_eq_some_iff.mp (whole.taken item member)).1

theorem Whole.mono {sizes : List ℕ} {plan : Plan} (whole : Whole sizes plan) (size : ℕ) :
    Whole (sizes ++ [size]) plan := by
  refine ⟨whole.increasing, fun item member => ?_⟩
  rw [List.getElem?_append_left (whole.index_lt member), whole.taken item member]

theorem Whole.of_take {sizes : List ℕ} {bound : ℕ} {plan : Plan}
    (whole : Whole (sizes.take bound) plan) : Whole sizes plan := by
  refine ⟨whole.increasing, fun item member => ?_⟩
  have item_lt := whole.index_lt member
  have taken := whole.taken item member
  rw [List.length_take] at item_lt
  rwa [List.getElem?_take_of_lt (by omega)] at taken

theorem Whole.concat {sizes : List ℕ} {plan : Plan} (whole : Whole sizes plan) (size : ℕ) :
    Whole (sizes ++ [size]) (plan ++ [(sizes.length, size)]) := by
  constructor
  · apply List.pairwise_append.mpr
    refine ⟨whole.increasing, List.pairwise_singleton _ _, fun item member last last_mem => ?_⟩
    rw [List.mem_singleton.mp last_mem]
    exact whole.index_lt member
  · intro item member
    rcases List.mem_append.mp member with member | member
    · exact (whole.mono size).taken item member
    · rw [List.mem_singleton.mp member]
      exact List.getElem?_concat_length

/-- A plan takes the last item or it does not. -/
theorem whole_concat_iff {sizes : List ℕ} {size : ℕ} {plan : Plan} :
    Whole (sizes ++ [size]) plan ↔
      Whole sizes plan ∨ ∃ earlier, Whole sizes earlier ∧
        plan = earlier ++ [(sizes.length, size)] := by
  constructor
  · intro whole
    rcases List.eq_nil_or_concat' plan with rfl | ⟨earlier, last, rfl⟩
    · exact .inl (whole_nil sizes)
    · obtain ⟨increasing, -, before⟩ := List.pairwise_append.mp whole.increasing
      have last_lt := whole.index_lt List.mem_concat_self
      have last_taken := whole.taken last List.mem_concat_self
      rw [List.length_append, List.length_singleton] at last_lt
      have earlier_taken : last.1 ≤ sizes.length →
          ∀ item ∈ earlier, sizes[item.1]? = some item.2 := by
        intro last_le item member
        have item_lt := before item member last List.mem_cons_self
        rw [← whole.taken item (List.mem_append_left _ member),
          List.getElem?_append_left (by omega)]
      rcases Nat.lt_or_ge last.1 sizes.length with inside | outside
      · left
        refine ⟨whole.increasing, fun item member => ?_⟩
        rcases List.mem_append.mp member with member | member
        · exact earlier_taken (Nat.le_of_lt inside) item member
        · rw [List.mem_singleton.mp member]
          rwa [List.getElem?_append_left inside] at last_taken
      · right
        have index_eq : last.1 = sizes.length := by omega
        rw [index_eq, List.getElem?_concat_length] at last_taken
        refine ⟨earlier, ⟨increasing, earlier_taken index_eq.le⟩, ?_⟩
        rw [← index_eq, Option.some.inj last_taken]
  · rintro (whole | ⟨earlier, whole, rfl⟩)
    · exact whole.mono size
    · exact whole.concat size

theorem whole_nil_iff {plan : Plan} : Whole [] plan ↔ plan = [] := by
  constructor
  · intro whole
    apply List.eq_nil_iff_forall_not_mem.mpr
    exact fun item member => absurd (whole.index_lt member) (Nat.not_lt_zero _)
  · rintro rfl
    exact whole_nil []

/-- A plan of whole items and, behind them, an item of which something is taken. -/
def MakesUp (amount : ℕ) (sizes : List ℕ) (plan : Plan) : Prop :=
  ∃ earlier index take size, plan = earlier ++ [(index, take)] ∧
    Whole (sizes.take index) earlier ∧ sizes[index]? = some size ∧ 0 < take ∧ take ≤ size ∧
    total earlier + take = amount

/-- A plan that makes up the amount ends with the last item or does not take it. -/
theorem makesUp_concat_iff {amount : ℕ} {sizes : List ℕ} {size : ℕ} {plan : Plan} :
    MakesUp amount (sizes ++ [size]) plan ↔
      MakesUp amount sizes plan ∨ ∃ earlier take, plan = earlier ++ [(sizes.length, take)] ∧
        Whole sizes earlier ∧ 0 < take ∧ take ≤ size ∧ total earlier + take = amount := by
  constructor
  · rintro ⟨earlier, index, take, taken, rfl, whole, found, makes⟩
    have index_lt := (List.getElem?_eq_some_iff.mp found).1
    rw [List.length_append, List.length_singleton] at index_lt
    rcases Nat.lt_or_ge index sizes.length with inside | outside
    · left
      rw [List.getElem?_append_left inside] at found
      rw [List.take_append_of_le_length (Nat.le_of_lt inside)] at whole
      exact ⟨earlier, index, take, taken, rfl, whole, found, makes⟩
    · right
      obtain rfl : index = sizes.length := by omega
      rw [List.getElem?_concat_length, Option.some.injEq] at found
      rw [List.take_left' rfl] at whole
      exact ⟨earlier, take, rfl, whole, found ▸ makes⟩
  · rintro (⟨earlier, index, take, taken, rfl, whole, found, makes⟩ |
      ⟨earlier, take, rfl, whole, makes⟩)
    · have inside := (List.getElem?_eq_some_iff.mp found).1
      refine ⟨earlier, index, take, taken, rfl, ?_, ?_, makes⟩
      · rwa [List.take_append_of_le_length (Nat.le_of_lt inside)]
      · rwa [List.getElem?_append_left inside]
    · refine ⟨earlier, sizes.length, take, size, rfl, ?_, List.getElem?_concat_length, makes⟩
      rwa [List.take_left' rfl]

theorem MakesUp.index_lt {amount : ℕ} {sizes : List ℕ} {plan : Plan}
    (makes : MakesUp amount sizes plan) {item : ℕ × ℕ} (member : item ∈ plan) :
    item.1 < sizes.length := by
  obtain ⟨earlier, index, take, size, rfl, whole, found, -⟩ := makes
  have index_lt := (List.getElem?_eq_some_iff.mp found).1
  rcases List.mem_append.mp member with member | member
  · have item_lt := whole.index_lt member
    rw [List.length_take] at item_lt
    omega
  · rwa [List.mem_singleton.mp member]

theorem Whole.total_le {sizes : List ℕ} {plan : Plan} (whole : Whole sizes plan) :
    total plan ≤ sizes.sum := by
  induction sizes using List.reverseRecOn generalizing plan with
  | nil => rw [whole_nil_iff.mp whole, total_nil]; exact Nat.zero_le _
  | append_singleton sizes size induction =>
      rw [List.sum_append, List.sum_singleton]
      rcases whole_concat_iff.mp whole with whole | ⟨earlier, earlier_whole, rfl⟩
      · exact (induction whole).trans (Nat.le_add_right _ _)
      · rw [total_concat]
        exact Nat.add_le_add_right (induction earlier_whole) size

theorem MakesUp.amount_le {amount : ℕ} {sizes : List ℕ} {plan : Plan}
    (makes : MakesUp amount sizes plan) : amount ≤ sizes.sum := by
  obtain ⟨earlier, index, take, size, rfl, whole, found, -, take_le, rfl⟩ := makes
  obtain ⟨index_lt, size_eq⟩ := List.getElem?_eq_some_iff.mp found
  have earlier_le := whole.total_le
  have split_sum := List.sum_take_add_sum_drop sizes index
  rw [List.drop_eq_getElem_cons index_lt, List.sum_cons, size_eq] at split_sum
  omega

theorem MakesUp.total_eq {amount : ℕ} {sizes : List ℕ} {plan : Plan}
    (makes : MakesUp amount sizes plan) : total plan = amount := by
  obtain ⟨earlier, index, take, size, rfl, -, -, -, -, sum_eq⟩ := makes
  rw [total_concat, sum_eq]

theorem MakesUp.increasing {amount : ℕ} {sizes : List ℕ} {plan : Plan}
    (makes : MakesUp amount sizes plan) : plan.Pairwise fun left right => left.1 < right.1 := by
  obtain ⟨earlier, index, take, size, rfl, whole, found, -⟩ := makes
  apply List.pairwise_append.mpr
  refine ⟨whole.increasing, List.pairwise_singleton _ _, fun entry member last last_mem => ?_⟩
  rw [List.mem_singleton.mp last_mem]
  have entry_lt := whole.index_lt member
  rw [List.length_take] at entry_lt
  exact Nat.lt_of_lt_of_le entry_lt (Nat.min_le_left _ _)

/-- Something is taken from every item of the plan, and no more than there is. -/
theorem MakesUp.taken {amount : ℕ} {sizes : List ℕ} {plan : Plan}
    (makes : MakesUp amount sizes plan) (sizes_pos : ∀ size ∈ sizes, 0 < size) :
    ∀ entry ∈ plan, ∃ size, sizes[entry.1]? = some size ∧ 0 < entry.2 ∧ entry.2 ≤ size := by
  obtain ⟨earlier, index, take, size, rfl, whole, found, take_pos, take_le, -⟩ := makes
  intro entry member
  rcases List.mem_append.mp member with member | member
  · have taken := whole.of_take.taken entry member
    exact ⟨entry.2, taken, sizes_pos _ (List.mem_of_getElem? taken), le_rfl⟩
  · rw [List.mem_singleton.mp member]
    exact ⟨size, found, take_pos, take_le⟩

/-- Increasing positions choose some of the items, in their order. -/
theorem exists_chosen {α : Type} {items : List α} {holds : α → ℕ × ℕ → Prop} {plan : Plan}
    (increasing : plan.Pairwise fun left right => left.1 < right.1)
    (found : ∀ entry ∈ plan, ∃ item, items[entry.1]? = some item ∧ holds item entry) :
    ∃ chosen, chosen.Sublist items ∧
      List.Forall₂ (fun item entry => items[entry.1]? = some item ∧ holds item entry)
        chosen plan := by
  have inside : ∀ entry ∈ plan, entry.1 < items.length := by
    intro entry member
    obtain ⟨item, item_eq, -⟩ := found entry member
    exact (List.getElem?_eq_some_iff.mp item_eq).1
  refine ⟨(plan.pmap (fun entry bound => (⟨entry.1, bound⟩ : Fin items.length)) inside).map
    (items[·]), ?_, ?_⟩
  · apply List.map_getElem_sublist
    rw [List.pairwise_pmap]
    exact increasing.imp fun lt _ _ => lt
  · clear increasing
    induction plan with
    | nil => exact .nil
    | cons entry plan induction =>
        rw [List.pmap_cons, List.map_cons]
        obtain ⟨item, item_eq, item_holds⟩ := found entry List.mem_cons_self
        have entry_lt := inside entry List.mem_cons_self
        have item_eq' : items[entry.1] = item := by
          rw [List.getElem?_eq_getElem entry_lt] at item_eq
          exact Option.some.inj item_eq
        apply List.Forall₂.cons
        · exact ⟨List.getElem?_eq_getElem entry_lt, item_eq'.symm ▸ item_holds⟩
        · exact induction (fun later member => found later (List.mem_cons_of_mem _ member))
            fun later member => inside later (List.mem_cons_of_mem _ member)

theorem not_makesUp_nil {amount : ℕ} {plan : Plan} : ¬ MakesUp amount [] plan := by
  rintro ⟨_, _, _, _, -, -, found, -⟩
  cases found

/-- Items whose sizes reach the amount can be taken in their order until they make it up. -/
theorem exists_makesUp {amount : ℕ} (positive : 0 < amount) {sizes : List ℕ}
    (enough : amount ≤ sizes.sum) : ∃ plan, MakesUp amount sizes plan := by
  have all_whole : ∀ sizes : List ℕ, ∃ plan, Whole sizes plan ∧ total plan = sizes.sum := by
    intro sizes
    induction sizes using List.reverseRecOn with
    | nil => exact ⟨[], whole_nil [], rfl⟩
    | append_singleton sizes size induction =>
        obtain ⟨plan, whole, sum_eq⟩ := induction
        exact ⟨_, whole.concat size,
          by rw [total_concat, sum_eq, List.sum_append, List.sum_singleton]⟩
  induction sizes using List.reverseRecOn with
  | nil =>
      rw [List.sum_nil] at enough
      omega
  | append_singleton sizes size induction =>
      rcases Nat.lt_or_ge sizes.sum amount with short | enough'
      · obtain ⟨plan, whole, sum_eq⟩ := all_whole sizes
        rw [List.sum_append, List.sum_singleton] at enough
        refine ⟨plan ++ [(sizes.length, amount - total plan)], makesUp_concat_iff.mpr (.inr ?_)⟩
        exact ⟨plan, _, rfl, whole, by omega, by omega, by omega⟩
      · obtain ⟨plan, makes⟩ := induction enough'
        exact ⟨plan, makesUp_concat_iff.mpr (.inl makes)⟩

/-! ## What one item adds to the table -/

section Spec

variable {C : Type} [LinearOrder C] {cost : Plan → C} {amount : ℕ}

theorem cheaper_le (best : Option Plan) (candidate : Plan) :
    cost (cheaper cost best candidate) ≤ cost candidate := by
  cases best with
  | none => exact le_rfl
  | some plan =>
      rw [cheaper]
      split
      · exact le_rfl
      · next not_lt => exact le_of_not_gt not_lt

theorem cheaper_some_le (plan candidate : Plan) :
    cost (cheaper cost (some plan) candidate) ≤ cost plan := by
  rw [cheaper]
  split
  · next lt => exact le_of_lt lt
  · exact le_rfl

theorem cheaper_cases (cost : Plan → C) (best : Option Plan) (candidate : Plan) :
    cheaper cost best candidate = candidate ∨ best = some (cheaper cost best candidate) := by
  cases best with
  | none => exact .inl rfl
  | some plan =>
      rw [cheaper]
      split
      · exact .inl rfl
      · exact .inr rfl

/-- A plan is kept that costs at most as much. -/
def Keeps (cost : Plan → C) (best : Option Plan) (plan : Plan) : Prop :=
  ∃ kept, best = some kept ∧ cost kept ≤ cost plan

theorem Keeps.cheaper {best : Option Plan} {plan : Plan} (keeps : Keeps cost best plan)
    (candidate : Plan) : Keeps cost (some (cheaper cost best candidate)) plan := by
  obtain ⟨kept, rfl, kept_le⟩ := keeps
  exact ⟨_, rfl, (cheaper_some_le kept candidate).trans kept_le⟩

theorem keeps_cheaper (best : Option Plan) (candidate : Plan) :
    Keeps cost (some (TableSelection.cheaper cost best candidate)) candidate :=
  ⟨_, rfl, cheaper_le best candidate⟩

variable {index size : ℕ}

theorem considerSplits_cons (entry : ℕ × Plan) (prior : List (ℕ × Plan)) (best : Option Plan) :
    considerSplits cost amount index size (entry :: prior) best =
      considerSplits cost amount index size prior
        (if 0 < amount - entry.1 ∧ amount - entry.1 < size then
          some (cheaper cost best (entry.2 ++ [(index, amount - entry.1)]))
        else best) := rfl

theorem addWhole_cons (entry : ℕ × Plan) (prior : List (ℕ × Plan)) (exact : OrderedDict ℕ Plan) :
    addWhole cost amount index size (entry :: prior) exact =
      addWhole cost amount index size prior
        (if amount < entry.1 + size then exact
        else exact.set (entry.1 + size)
          (cheaper cost (exact.get? (entry.1 + size)) (entry.2 ++ [(index, size)]))) := rfl

theorem considerSplits_keeps {prior : List (ℕ × Plan)} {best : Option Plan} {plan : Plan}
    (keeps : Keeps cost best plan) :
    Keeps cost (considerSplits cost amount index size prior best) plan := by
  induction prior generalizing best with
  | nil => exact keeps
  | cons entry prior induction =>
      apply induction
      dsimp only
      split
      · exact keeps.cheaper _
      · exact keeps

theorem considerSplits_considers {prior : List (ℕ × Plan)} (best : Option Plan) {entry : ℕ × Plan}
    (member : entry ∈ prior) (positive : 0 < amount - entry.1) (smaller : amount - entry.1 < size) :
    Keeps cost (considerSplits cost amount index size prior best)
      (entry.2 ++ [(index, amount - entry.1)]) := by
  induction prior generalizing best with
  | nil => exact absurd member List.not_mem_nil
  | cons first prior induction =>
      rcases List.mem_cons.mp member with rfl | member
      · rw [considerSplits_cons, if_pos ⟨positive, smaller⟩]
        exact considerSplits_keeps (keeps_cheaper best _)
      · exact induction _ member

theorem considerSplits_sound {prior : List (ℕ × Plan)} {best : Option Plan} {plan : Plan}
    (found : considerSplits cost amount index size prior best = some plan) :
    best = some plan ∨ ∃ entry ∈ prior, 0 < amount - entry.1 ∧ amount - entry.1 < size ∧
      plan = entry.2 ++ [(index, amount - entry.1)] := by
  induction prior generalizing best with
  | nil => exact .inl found
  | cons first prior induction =>
      rcases induction found with before | ⟨entry, member, considered⟩
      · dsimp only at before
        split at before
        · next split_here =>
            rcases cheaper_cases cost best (first.2 ++ [(index, amount - first.1)]) with
              candidate_eq | best_eq
            · rw [candidate_eq] at before
              exact .inr ⟨first, List.mem_cons_self, split_here.1, split_here.2,
                (Option.some.inj before).symm⟩
            · exact .inl (best_eq.trans before)
        · exact .inl before
      · exact .inr ⟨entry, List.mem_cons_of_mem _ member, considered⟩

theorem addWhole_keeps {prior : List (ℕ × Plan)} {exact : OrderedDict ℕ Plan} {key : ℕ}
    {plan : Plan}
    (keeps : Keeps cost (exact.get? key) plan) :
    Keeps cost ((addWhole cost amount index size prior exact).get? key) plan := by
  induction prior generalizing exact with
  | nil => exact keeps
  | cons entry prior induction =>
      apply induction
      dsimp only
      split
      · exact keeps
      · rw [OrderedDict.get?_set]
        split
        · next key_eq =>
            rw [key_eq]
            exact keeps.cheaper _
        · exact keeps

theorem addWhole_adds {prior : List (ℕ × Plan)} (exact : OrderedDict ℕ Plan) {entry : ℕ × Plan}
    (member : entry ∈ prior) (fits : entry.1 + size ≤ amount) :
    Keeps cost ((addWhole cost amount index size prior exact).get? (entry.1 + size))
      (entry.2 ++ [(index, size)]) := by
  induction prior generalizing exact with
  | nil => exact absurd member List.not_mem_nil
  | cons first prior induction =>
      rcases List.mem_cons.mp member with rfl | member
      · rw [addWhole_cons, if_neg (Nat.not_lt.mpr fits)]
        apply addWhole_keeps
        rw [OrderedDict.get?_set_self]
        exact keeps_cheaper _ _
      · exact induction _ member

theorem addWhole_sound {prior : List (ℕ × Plan)} {exact : OrderedDict ℕ Plan} {key : ℕ}
    {plan : Plan}
    (found : (addWhole cost amount index size prior exact).get? key = some plan) :
    exact.get? key = some plan ∨ ∃ entry ∈ prior, key = entry.1 + size ∧ key ≤ amount ∧
      plan = entry.2 ++ [(index, size)] := by
  induction prior generalizing exact with
  | nil => exact .inl found
  | cons first prior induction =>
      rcases induction found with before | ⟨entry, member, added⟩
      · dsimp only at before
        split at before
        · exact .inl before
        · next fits =>
            rw [OrderedDict.get?_set] at before
            split at before
            · next key_eq =>
                rcases cheaper_cases cost (exact.get? (first.1 + size))
                  (first.2 ++ [(index, size)]) with candidate_eq | exact_eq
                · rw [candidate_eq] at before
                  exact .inr ⟨first, List.mem_cons_self, key_eq.symm,
                    key_eq ▸ Nat.not_lt.mp fits, (Option.some.inj before).symm⟩
                · exact .inl (key_eq ▸ exact_eq.trans before)
            · exact .inl before
      · exact .inr ⟨entry, List.mem_cons_of_mem _ member, added⟩

/-- The step keeps plans at least as cheap as before, and as the extensions by its item. -/
structure StepKeeps (cost : Plan → C) (amount : ℕ) (table : Table) (index size : ℕ)
    (after : Table) : Prop where
  /-- A kept plan of a sum is replaced by a cheaper one only. -/
  exact_keeps : ∀ key plan, Keeps cost (table.exact.get? key) plan →
    Keeps cost (after.exact.get? key) plan
  /-- The item is added to the kept plans. -/
  exact_adds : ∀ key plan, table.exact.get? key = some plan → key + size ≤ amount →
    Keeps cost (after.exact.get? (key + size)) (plan ++ [(index, size)])
  /-- The best plan is replaced by a cheaper one only. -/
  best_keeps : ∀ plan, Keeps cost table.best plan → Keeps cost after.best plan
  /-- The item is split behind the kept plans. -/
  best_splits : ∀ key plan, table.exact.get? key = some plan → 0 < amount - key →
    amount - key < size → Keeps cost after.best (plan ++ [(index, amount - key)])
  /-- The best plan is as cheap as the plan kept for the amount. -/
  best_exact : ∀ plan, Keeps cost (after.exact.get? amount) plan → Keeps cost after.best plan

variable (cost amount index size) in
theorem step_keeps (table : Table) :
    StepKeeps cost amount table index size (step cost amount table index size) := by
  have exact_eq : (step cost amount table index size).exact =
      addWhole cost amount index size table.exact.entries table.exact := by
    unfold step
    dsimp only
    split <;> rfl
  have best_keeps : ∀ plan,
      Keeps cost (considerSplits cost amount index size table.exact.entries table.best) plan →
      Keeps cost (step cost amount table index size).best plan := by
    intro plan keeps
    unfold step
    dsimp only
    split
    · exact keeps
    · exact keeps.cheaper _
  constructor
  · intro key plan keeps
    rw [exact_eq]
    exact addWhole_keeps keeps
  · intro key plan found fits
    rw [exact_eq]
    have member := (OrderedDict.get?_eq_some_iff _ _ _).mp found
    exact addWhole_adds table.exact member fits
  · intro plan keeps
    exact best_keeps plan (considerSplits_keeps keeps)
  · intro key plan found positive smaller
    have member := (OrderedDict.get?_eq_some_iff _ _ _).mp found
    exact best_keeps _ (considerSplits_considers table.best member positive smaller)
  · rintro plan ⟨kept, found, kept_le⟩
    rw [exact_eq] at found
    have considered : (step cost amount table index size).best = some (cheaper cost
        (considerSplits cost amount index size table.exact.entries table.best) kept) := by
      unfold step
      dsimp only
      rw [found]
    exact ⟨_, considered, (cheaper_le _ kept).trans kept_le⟩

/-! ## The finished table -/

/-- Plans in the table are what their place in it says. -/
structure Table.Sound (amount : ℕ) (sizes : List ℕ) (table : Table) : Prop where
  /-- A plan takes whole items up to the sum under which it is kept. -/
  exact : ∀ key plan, table.exact.get? key = some plan →
    Whole sizes plan ∧ total plan = key ∧ key ≤ amount
  /-- The best plan makes up the amount. -/
  best : ∀ plan, table.best = some plan → MakesUp amount sizes plan

theorem Whole.makesUp {sizes : List ℕ} {plan : Plan} (whole : Whole sizes plan)
    (sizes_pos : ∀ size ∈ sizes, 0 < size) (positive : 0 < amount) (sum_eq : total plan = amount) :
    MakesUp amount sizes plan := by
  induction sizes using List.reverseRecOn with
  | nil =>
      rw [whole_nil_iff.mp whole, total_nil] at sum_eq
      omega
  | append_singleton sizes size induction =>
      rcases whole_concat_iff.mp whole with whole | ⟨earlier, earlier_whole, rfl⟩
      · apply makesUp_concat_iff.mpr
        exact .inl (induction whole fun other member =>
          sizes_pos other (List.mem_append_left _ member))
      · rw [total_concat] at sum_eq
        apply makesUp_concat_iff.mpr
        exact .inr
          ⟨earlier, size, rfl, earlier_whole, sizes_pos size List.mem_concat_self, le_rfl, sum_eq⟩

/-- What holds of the first plan and is handed on by every item holds of all plans in the table. -/
theorem run_induction (Exact : List ℕ → ℕ → Plan → Prop) (Best : List ℕ → Plan → Prop)
    (initial : Exact [] 0 [])
    (exact_skip : ∀ sizes size key plan, (run cost amount sizes).exact.get? key = some plan →
      Exact sizes key plan → Exact (sizes ++ [size]) key plan)
    (exact_take : ∀ sizes size key plan, (run cost amount sizes).exact.get? key = some plan →
      Exact sizes key plan → key + size ≤ amount →
        Exact (sizes ++ [size]) (key + size) (plan ++ [(sizes.length, size)]))
    (best_skip : ∀ sizes size plan, (run cost amount sizes).best = some plan →
      Best sizes plan → Best (sizes ++ [size]) plan)
    (best_split : ∀ sizes size key plan, (run cost amount sizes).exact.get? key = some plan →
      Exact sizes key plan → 0 < amount - key → amount - key < size →
        Best (sizes ++ [size]) (plan ++ [(sizes.length, amount - key)]))
    (best_exact : ∀ sizes plan, Exact sizes amount plan → Best sizes plan) (sizes : List ℕ) :
    (∀ key plan, (run cost amount sizes).exact.get? key = some plan → Exact sizes key plan) ∧
      ∀ plan, (run cost amount sizes).best = some plan → Best sizes plan := by
  induction sizes using List.reverseRecOn with
  | nil =>
      constructor
      · intro key plan found
        have initial_eq : (run cost amount []).exact = OrderedDict.set ∅ 0 [] := rfl
        rw [initial_eq, OrderedDict.get?_set] at found
        split at found
        · next key_eq =>
            obtain rfl := Option.some.inj found
            exact key_eq ▸ initial
        · cases found
      · rintro plan found
        cases found
  | append_singleton sizes size induction =>
      obtain ⟨exact_before, best_before⟩ := induction
      have exact_after : ∀ key plan, (addWhole cost amount sizes.length size
          (run cost amount sizes).exact.entries (run cost amount sizes).exact).get? key =
            some plan → Exact (sizes ++ [size]) key plan := by
        intro key plan found
        rcases addWhole_sound found with found | ⟨entry, member, rfl, fits, rfl⟩
        · exact exact_skip _ _ _ _ found (exact_before key plan found)
        · have found := (OrderedDict.get?_eq_some_iff _ _ _).mpr member
          exact exact_take _ _ _ _ found (exact_before _ _ found) fits
      have splits_after : ∀ plan, considerSplits cost amount sizes.length size
          (run cost amount sizes).exact.entries (run cost amount sizes).best = some plan →
            Best (sizes ++ [size]) plan := by
        intro plan found
        rcases considerSplits_sound found with found | ⟨entry, member, remains, smaller, rfl⟩
        · exact best_skip _ _ _ found (best_before plan found)
        · have found := (OrderedDict.get?_eq_some_iff _ _ _).mpr member
          exact best_split _ _ _ _ found (exact_before _ _ found) remains smaller
      rw [run_concat]
      unfold step
      dsimp only
      split
      · exact ⟨exact_after, splits_after⟩
      · next plan found =>
          refine ⟨exact_after, fun kept kept_eq => ?_⟩
          rcases cheaper_cases cost (considerSplits cost amount sizes.length size
            (run cost amount sizes).exact.entries (run cost amount sizes).best) plan with
            plan_eq | best_eq
          · rw [plan_eq] at kept_eq
            obtain rfl := Option.some.inj kept_eq
            exact best_exact _ plan (exact_after amount plan found)
          · exact splits_after kept (best_eq.trans kept_eq)

theorem run_sound {sizes : List ℕ} (sizes_pos : ∀ size ∈ sizes, 0 < size) (positive : 0 < amount) :
    (run cost amount sizes).Sound amount sizes := by
  suffices all : (∀ key plan, (run cost amount sizes).exact.get? key = some plan →
      Whole sizes plan ∧ total plan = key ∧ key ≤ amount) ∧
      ∀ plan, (run cost amount sizes).best = some plan →
        (∀ size ∈ sizes, 0 < size) → MakesUp amount sizes plan from
    ⟨all.1, fun plan found => all.2 plan found sizes_pos⟩
  apply run_induction (fun sizes key plan => Whole sizes plan ∧ total plan = key ∧ key ≤ amount)
    (fun sizes plan => (∀ size ∈ sizes, 0 < size) → MakesUp amount sizes plan)
  · exact ⟨whole_nil [], rfl, Nat.zero_le _⟩
  · rintro sizes size key plan - ⟨whole, rest⟩
    exact ⟨whole.mono size, rest⟩
  · rintro sizes size key plan - ⟨whole, sum_eq, -⟩ fits
    exact ⟨whole.concat size, by rw [total_concat, sum_eq], fits⟩
  · intro sizes size plan _ makes pos
    apply makesUp_concat_iff.mpr
    exact .inl (makes fun other member => pos other (List.mem_append_left _ member))
  · rintro sizes size key plan - ⟨whole, sum_eq, le⟩ remains smaller -
    apply makesUp_concat_iff.mpr
    exact .inr ⟨plan, _, rfl, whole, remains, Nat.le_of_lt smaller, by omega⟩
  · rintro sizes plan ⟨whole, sum_eq, -⟩ pos
    exact whole.makesUp pos positive sum_eq

/-- Every earlier part of the plan was the kept plan for its sum when the next item was added. -/
def Retained (cost : Plan → C) (amount : ℕ) (sizes : List ℕ) (plan : Plan) : Prop :=
  ∀ earlier item later, plan = earlier ++ item :: later →
    (run cost amount (sizes.take item.1)).exact.get? (total earlier) = some earlier

theorem retained_nil (sizes : List ℕ) : Retained cost amount sizes [] := by
  intro earlier item later nil_eq
  exact absurd nil_eq.symm (List.append_ne_nil_of_right_ne_nil _ (List.cons_ne_nil _ _))

theorem Retained.mono {sizes : List ℕ} {plan : Plan} (retained : Retained cost amount sizes plan)
    (inside : ∀ item ∈ plan, item.1 < sizes.length) (size : ℕ) :
    Retained cost amount (sizes ++ [size]) plan := by
  rintro earlier item later rfl
  have item_lt := inside item (List.mem_append_right _ List.mem_cons_self)
  rw [List.take_append_of_le_length (Nat.le_of_lt item_lt)]
  exact retained earlier item later rfl

theorem Retained.concat {sizes : List ℕ} {plan : Plan} (retained : Retained cost amount sizes plan)
    (inside : ∀ item ∈ plan, item.1 < sizes.length)
    (found : (run cost amount sizes).exact.get? (total plan) = some plan) (size take : ℕ) :
    Retained cost amount (sizes ++ [size]) (plan ++ [(sizes.length, take)]) := by
  intro earlier item later plan_eq
  rcases List.eq_nil_or_concat' later with rfl | ⟨front, last, rfl⟩
  · obtain ⟨rfl, last_eq⟩ := List.append_inj' plan_eq rfl
    obtain rfl := (List.cons.inj last_eq).1
    rwa [List.take_left' rfl]
  · rw [← List.cons_append, ← List.append_assoc] at plan_eq
    obtain ⟨plan_eq, -⟩ := List.append_inj' plan_eq rfl
    exact retained.mono inside size earlier item front plan_eq

/-- The best plan was built from kept plans. -/
theorem run_retained {sizes : List ℕ} (sizes_pos : ∀ size ∈ sizes, 0 < size)
    (positive : 0 < amount) {plan : Plan} (found : (run cost amount sizes).best = some plan) :
    Retained cost amount sizes plan := by
  suffices all : (∀ key plan, (run cost amount sizes).exact.get? key = some plan →
      Whole sizes plan ∧ total plan = key ∧ Retained cost amount sizes plan) ∧
      ∀ plan, (run cost amount sizes).best = some plan →
        (∀ size ∈ sizes, 0 < size) → Retained cost amount sizes plan from
    all.2 plan found sizes_pos
  apply run_induction
    (fun sizes key plan => Whole sizes plan ∧ total plan = key ∧ Retained cost amount sizes plan)
    (fun sizes plan => (∀ size ∈ sizes, 0 < size) → Retained cost amount sizes plan)
  · exact ⟨whole_nil [], rfl, retained_nil []⟩
  · rintro sizes size key plan - ⟨whole, sum_eq, retained⟩
    exact ⟨whole.mono size, sum_eq, retained.mono (fun _ => whole.index_lt) size⟩
  · rintro sizes size key plan found ⟨whole, sum_eq, retained⟩ -
    refine ⟨whole.concat size, by rw [total_concat, sum_eq], ?_⟩
    exact retained.concat (fun _ => whole.index_lt) (by rw [sum_eq, found]) size size
  · intro sizes size plan found retained pos
    have sizes_pos : ∀ size ∈ sizes, 0 < size :=
      fun other member => pos other (List.mem_append_left _ member)
    have makes := (run_sound sizes_pos positive).best plan found
    exact (retained sizes_pos).mono (fun _ => makes.index_lt) size
  · rintro sizes size key plan found ⟨whole, sum_eq, retained⟩ - - -
    exact retained.concat (fun _ => whole.index_lt) (by rw [sum_eq, found]) size _
  · rintro sizes plan ⟨-, -, retained⟩ -
    exact retained

section Rank

variable {R : Type} [Preorder R] {rank : Plan → R}

/-- No cheaper plan of whole items for the same sum becomes dearer than the earlier part when the
item is added to both. -/
def Followed (rank : Plan → R) (sizes : List ℕ) (earlier : Plan) (item : ℕ × ℕ) : Prop :=
  ∀ other, Whole (sizes.take item.1) other → total other = total earlier →
    rank other ≤ rank earlier → rank (other ++ [item]) ≤ rank (earlier ++ [item])

/-- The order of costs is kept at every item of the plan. -/
def Tracked (rank : Plan → R) (sizes : List ℕ) (plan : Plan) : Prop :=
  ∀ earlier item later, plan = earlier ++ item :: later → Followed rank sizes earlier item

theorem Followed.mono {sizes : List ℕ} {size : ℕ} {earlier : Plan} {item : ℕ × ℕ}
    (followed : Followed rank (sizes ++ [size]) earlier item) (inside : item.1 ≤ sizes.length) :
    Followed rank sizes earlier item := by
  intro other whole
  apply followed other
  rwa [List.take_append_of_le_length inside]

theorem Tracked.mono {sizes : List ℕ} {size : ℕ} {plan : Plan}
    (tracked : Tracked rank (sizes ++ [size]) plan)
    (inside : ∀ item ∈ plan, item.1 ≤ sizes.length) : Tracked rank sizes plan := by
  rintro earlier item later rfl
  exact (tracked earlier item later rfl).mono
    (inside item (List.mem_append_right _ List.mem_cons_self))

theorem Tracked.take {sizes : List ℕ} {plan : Plan} (tracked : Tracked rank sizes plan) {bound : ℕ}
    (inside : ∀ item ∈ plan, item.1 ≤ bound) : Tracked rank (sizes.take bound) plan := by
  rintro earlier item later rfl other whole
  have item_le := inside item (List.mem_append_right _ List.mem_cons_self)
  rw [List.take_take, Nat.min_eq_left item_le] at whole
  exact tracked earlier item later rfl other whole

theorem Tracked.earlier {sizes : List ℕ} {earlier : Plan} {last : ℕ × ℕ}
    (tracked : Tracked rank sizes (earlier ++ [last])) : Tracked rank sizes earlier := by
  rintro front item later rfl
  apply tracked front item (later ++ [last])
  rw [List.append_assoc, List.cons_append]

theorem Tracked.last {sizes : List ℕ} {earlier : Plan} {last : ℕ × ℕ}
    (tracked : Tracked rank sizes (earlier ++ [last])) : Followed rank sizes earlier last :=
  tracked earlier last [] rfl

/-- The table keeps a plan for every sum of whole items, at most as dear as a tracked one. -/
theorem exact_rank_le (rank_mono : ∀ plan other, cost plan ≤ cost other → rank plan ≤ rank other)
    {sizes : List ℕ} (sizes_pos : ∀ size ∈ sizes, 0 < size) (positive : 0 < amount) {plan : Plan}
    (whole : Whole sizes plan) (tracked : Tracked rank sizes plan) (fits : total plan ≤ amount) :
    ∃ kept, (run cost amount sizes).exact.get? (total plan) = some kept ∧
      rank kept ≤ rank plan := by
  induction sizes using List.reverseRecOn generalizing plan with
  | nil =>
      rw [whole_nil_iff.mp whole]
      exact ⟨[], OrderedDict.get?_set_self _ _ _, le_rfl⟩
  | append_singleton sizes size induction =>
      have sizes_pos' := fun other member => sizes_pos other (List.mem_append_left _ member)
      have keeps := step_keeps cost amount sizes.length size (run cost amount sizes)
      rw [run_concat]
      rcases whole_concat_iff.mp whole with whole | ⟨earlier, earlier_whole, rfl⟩
      · have inside : ∀ item ∈ plan, item.1 ≤ sizes.length :=
          fun item member => Nat.le_of_lt (whole.index_lt member)
        obtain ⟨kept, found, kept_le⟩ :=
          induction sizes_pos' whole (tracked.mono inside) fits
        obtain ⟨after, after_found, after_le⟩ :=
          keeps.exact_keeps _ kept ⟨kept, found, le_rfl⟩
        exact ⟨after, after_found, (rank_mono _ _ after_le).trans kept_le⟩
      · have inside : ∀ item ∈ earlier, item.1 ≤ sizes.length :=
          fun item member => Nat.le_of_lt (earlier_whole.index_lt member)
        rw [total_concat] at fits ⊢
        obtain ⟨kept, found, kept_le⟩ :=
          induction sizes_pos' earlier_whole (tracked.earlier.mono inside) (by omega)
        have sound := (run_sound sizes_pos' positive).exact _ kept found
        obtain ⟨after, after_found, after_le⟩ := keeps.exact_adds _ kept found fits
        have followed := tracked.last.mono le_rfl
        have extended := followed kept (by rw [List.take_length]; exact sound.1) sound.2.1 kept_le
        exact ⟨after, after_found, (rank_mono _ _ after_le).trans extended⟩

/-- The best plan is at most as dear as a tracked one. -/
theorem best_rank_le (rank_mono : ∀ plan other, cost plan ≤ cost other → rank plan ≤ rank other)
    {sizes : List ℕ} (sizes_pos : ∀ size ∈ sizes, 0 < size) (positive : 0 < amount) {plan : Plan}
    (makes : MakesUp amount sizes plan) (tracked : Tracked rank sizes plan) :
    ∃ kept, (run cost amount sizes).best = some kept ∧ rank kept ≤ rank plan := by
  induction sizes using List.reverseRecOn with
  | nil => exact absurd makes not_makesUp_nil
  | append_singleton sizes size induction =>
      have sizes_pos' := fun other member => sizes_pos other (List.mem_append_left _ member)
      have keeps := step_keeps cost amount sizes.length size (run cost amount sizes)
      rw [run_concat]
      rcases makesUp_concat_iff.mp makes with makes |
        ⟨earlier, take, rfl, whole, take_pos, take_le, sum_eq⟩
      · have inside : ∀ item ∈ plan, item.1 ≤ sizes.length :=
          fun item member => Nat.le_of_lt (makes.index_lt member)
        obtain ⟨kept, best_eq, kept_le⟩ := induction sizes_pos' makes (tracked.mono inside)
        obtain ⟨after, after_eq, after_le⟩ := keeps.best_keeps kept ⟨kept, best_eq, le_rfl⟩
        exact ⟨after, after_eq, (rank_mono _ _ after_le).trans kept_le⟩
      · have inside : ∀ item ∈ earlier, item.1 ≤ sizes.length :=
          fun item member => Nat.le_of_lt (whole.index_lt member)
        obtain ⟨kept, found, kept_le⟩ := exact_rank_le rank_mono sizes_pos' positive
          whole (tracked.earlier.mono inside) (by omega)
        have sound := (run_sound sizes_pos' positive).exact _ kept found
        have followed := tracked.last.mono le_rfl
        have extended := followed kept (by rw [List.take_length]; exact sound.1) sound.2.1 kept_le
        have take_eq : take = amount - total earlier := by omega
        rcases Nat.lt_or_ge take size with smaller | whole_item
        · obtain ⟨best, best_eq, best_le⟩ :=
            keeps.best_splits _ kept found (by omega) (by omega)
          rw [← take_eq] at best_le
          exact ⟨best, best_eq, (rank_mono _ _ best_le).trans extended⟩
        · obtain rfl : take = size := by omega
          have added := keeps.exact_adds _ kept found (by omega)
          rw [sum_eq] at added
          obtain ⟨best, best_eq, best_le⟩ := keeps.best_exact _ added
          exact ⟨best, best_eq, (rank_mono _ _ best_le).trans extended⟩

end Rank

/-- No plan is found exactly when the items do not reach the amount. -/
theorem best_eq_none_iff {sizes : List ℕ} (sizes_pos : ∀ size ∈ sizes, 0 < size)
    (positive : 0 < amount) : (run cost amount sizes).best = none ↔ sizes.sum < amount := by
  constructor
  · intro none_found
    by_contra enough
    obtain ⟨plan, makes⟩ := exists_makesUp positive (Nat.not_lt.mp enough)
    -- Every sum is tracked when all plans have one rank.
    have rank_mono : ∀ plan other : Plan, cost plan ≤ cost other → (0 : ℕ) ≤ 0 :=
      fun _ _ _ => le_rfl
    obtain ⟨kept, found, -⟩ := best_rank_le rank_mono sizes_pos positive makes
      fun _ _ _ _ _ _ _ _ => le_rfl
    rw [none_found] at found
    cases found
  · intro short
    cases found : (run cost amount sizes).best with
    | none => rfl
    | some plan =>
        have makes := (run_sound sizes_pos positive).best plan found
        exact absurd makes.amount_le (Nat.not_le.mpr short)

end Spec

end TableSelection
