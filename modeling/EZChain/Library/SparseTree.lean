import Mathlib.Data.List.Induction
import Mathlib.Data.Nat.Bitwise
import EZChain.Library.OrderedDict

/-!
# Sparse binary commitments

A finite map from numbers below `2 ^ height` is committed by a binary tree.  The root splits its
entries on the most significant bit, empty subtrees carry a default digest, and a path lists the
sibling digests from the leaf upwards.  When the node digest determines both children, a path
reaches the root only from the digest that the tree itself holds at the selected leaf.
-/

namespace SparseTree

variable {δ : Type*}

/-- Digest of an empty subtree of the given height. -/
def defaultHash (node : δ → δ → δ) (emptyLeaf : δ) : ℕ → δ
  | 0 => emptyLeaf
  | height + 1 => node (defaultHash node emptyLeaf height) (defaultHash node emptyLeaf height)

/-- Entries whose key has the selected bit equal to `side`. -/
def half (side : Bool) (bit : ℕ) (items : List (ℕ × δ)) : List (ℕ × δ) :=
  items.filter fun item => item.1.testBit bit = side

/-- Digest of the subtree of the given height that holds the given entries. -/
def subtreeHash (node : δ → δ → δ) (leaf : ℕ → δ → δ) (emptyLeaf : δ) : ℕ → List (ℕ × δ) → δ
  | height, [] => defaultHash node emptyLeaf height
  | 0, item :: _ => leaf item.1 item.2
  | height + 1, item :: items =>
      node (subtreeHash node leaf emptyLeaf height (half false height (item :: items)))
        (subtreeHash node leaf emptyLeaf height (half true height (item :: items)))

/-- Sibling digests along the path of a key, from the leaf upwards. -/
def siblings (node : δ → δ → δ) (leaf : ℕ → δ → δ) (emptyLeaf : δ) (key : ℕ) :
    ℕ → List (ℕ × δ) → List δ
  | 0, _ => []
  | height + 1, items =>
      siblings node leaf emptyLeaf key height (half (key.testBit height) height items) ++
        [subtreeHash node leaf emptyLeaf height (half (!key.testBit height) height items)]

/-- Recompute the digest above a leaf from the sibling digests, starting at a level. -/
def climb (node : δ → δ → δ) (key : ℕ) : ℕ → δ → List δ → δ
  | _, current, [] => current
  | level, current, sibling :: rest =>
      climb node key (level + 1)
        (if key.testBit level then node sibling current else node current sibling) rest

/-- Entries that agree with a key on all bits below the height. -/
def pathItems (key : ℕ) : ℕ → List (ℕ × δ) → List (ℕ × δ)
  | 0, items => items
  | height + 1, items => pathItems key height (half (key.testBit height) height items)

section Structure

variable (node : δ → δ → δ) (leaf : ℕ → δ → δ) (emptyLeaf : δ)

theorem half_nil (side : Bool) (bit : ℕ) : half side bit ([] : List (ℕ × δ)) = [] := rfl

@[simp]
theorem subtreeHash_nil (height : ℕ) :
    subtreeHash node leaf emptyLeaf height [] = defaultHash node emptyLeaf height := by
  cases height <;> rfl

theorem subtreeHash_succ (height : ℕ) (items : List (ℕ × δ)) :
    subtreeHash node leaf emptyLeaf (height + 1) items =
      node (subtreeHash node leaf emptyLeaf height (half false height items))
        (subtreeHash node leaf emptyLeaf height (half true height items)) := by
  cases items with
  | nil =>
      rw [half_nil, half_nil, subtreeHash_nil, subtreeHash_nil]
      rfl
  | cons item items => rfl

@[simp]
theorem length_siblings (key height : ℕ) (items : List (ℕ × δ)) :
    (siblings node leaf emptyLeaf key height items).length = height := by
  induction height generalizing items with
  | zero => rfl
  | succ height induction => simp [siblings, induction]

theorem getElem?_siblings_congr {level height key other : ℕ}
    (agree : ∀ bit, level ≤ bit → bit < height → key.testBit bit = other.testBit bit)
    (items : List (ℕ × δ)) :
    (siblings node leaf emptyLeaf key height items)[level]? =
      (siblings node leaf emptyLeaf other height items)[level]? := by
  induction height generalizing items with
  | zero => rfl
  | succ height induction =>
      simp only [siblings, List.getElem?_append, length_siblings]
      split
      · next below =>
          rw [agree height below.le (Nat.lt_succ_self height)]
          exact induction (fun bit from_level bit_lt => agree bit from_level (by omega)) _
      · next above =>
          cases top : level - height with
          | zero => rw [agree height (by omega) (Nat.lt_succ_self height)]
          | succ beyond => rfl

theorem climb_append (key level : ℕ) (current : δ) (lower upper : List δ) :
    climb node key level current (lower ++ upper) =
      climb node key (level + lower.length) (climb node key level current lower) upper := by
  induction lower generalizing level current with
  | nil => simp [climb]
  | cons sibling lower induction =>
      simp only [List.cons_append, climb, List.length_cons, induction]
      congr 1
      omega

theorem mem_pathItems (key height : ℕ) (items : List (ℕ × δ)) (item : ℕ × δ) :
    item ∈ pathItems key height items ↔
      item ∈ items ∧ ∀ bit < height, item.1.testBit bit = key.testBit bit := by
  induction height generalizing items with
  | zero => simp [pathItems]
  | succ height induction =>
      simp only [pathItems, induction, half, List.mem_filter, decide_eq_true_eq]
      constructor
      · rintro ⟨⟨member, agrees⟩, below⟩
        refine ⟨member, fun bit bit_lt => ?_⟩
        rcases Nat.lt_succ_iff_lt_or_eq.mp bit_lt with bit_lt | rfl
        · exact below bit bit_lt
        · exact agrees
      · rintro ⟨member, agrees⟩
        exact ⟨⟨member, agrees height (Nat.lt_succ_self height)⟩,
          fun bit bit_lt => agrees bit (Nat.lt_succ_of_lt bit_lt)⟩

/-- The sibling path of the tree itself leads from its leaf to its root. -/
theorem climb_siblings (key height : ℕ) (items : List (ℕ × δ)) :
    climb node key 0 (subtreeHash node leaf emptyLeaf 0 (pathItems key height items))
        (siblings node leaf emptyLeaf key height items) =
      subtreeHash node leaf emptyLeaf height items := by
  induction height generalizing items with
  | zero => rfl
  | succ height induction =>
      rw [siblings, pathItems, climb_append, induction, subtreeHash_succ]
      cases side : key.testBit height <;> simp [climb, side]

/-- A path reaches the root exactly when it starts at the digest of the selected leaf and lists
the siblings of the tree. -/
theorem climb_eq_subtreeHash_iff (node_injective : ∀ {left right left' right' : δ},
      node left right = node left' right' → left = left' ∧ right = right')
    (key : ℕ) (start : δ) (path : List δ) (items : List (ℕ × δ)) :
    climb node key 0 start path = subtreeHash node leaf emptyLeaf path.length items ↔
      start = subtreeHash node leaf emptyLeaf 0 (pathItems key path.length items) ∧
        path = siblings node leaf emptyLeaf key path.length items := by
  constructor
  · intro reaches
    induction path using List.reverseRecOn generalizing items with
    | nil => exact ⟨reaches, rfl⟩
    | append_singleton lower top induction =>
        simp only [List.length_append, List.length_singleton] at reaches ⊢
        rw [climb_append, subtreeHash_succ] at reaches
        simp only [Nat.zero_add, climb] at reaches
        cases side : key.testBit lower.length with
        | false =>
            simp only [side, Bool.false_eq_true, if_false] at reaches
            obtain ⟨lower_eq, top_eq⟩ := node_injective reaches
            obtain ⟨start_eq, lower_path⟩ := induction (half false lower.length items) lower_eq
            refine ⟨by simpa [pathItems, side] using start_eq, ?_⟩
            simp only [siblings, side, Bool.not_false, ← lower_path, top_eq]
        | true =>
            simp only [side, if_true] at reaches
            obtain ⟨top_eq, lower_eq⟩ := node_injective reaches
            obtain ⟨start_eq, lower_path⟩ := induction (half true lower.length items) lower_eq
            refine ⟨by simpa [pathItems, side] using start_eq, ?_⟩
            simp only [siblings, side, Bool.not_true, ← lower_path, top_eq]
  · rintro ⟨start_eq, path_eq⟩
    calc
      climb node key 0 start path =
          climb node key 0 (subtreeHash node leaf emptyLeaf 0 (pathItems key path.length items))
            (siblings node leaf emptyLeaf key path.length items) := by rw [← path_eq, ← start_eq]
      _ = subtreeHash node leaf emptyLeaf path.length items :=
          climb_siblings node leaf emptyLeaf key path.length items

end Structure

/-! ## Selected leaves -/

theorem eq_of_testBit_below {height left right : ℕ} (left_lt : left < 2 ^ height)
    (right_lt : right < 2 ^ height)
    (agrees : ∀ bit < height, left.testBit bit = right.testBit bit) : left = right := by
  apply Nat.eq_of_testBit_eq
  intro bit
  by_cases bit_lt : bit < height
  · exact agrees bit bit_lt
  · have power_le : 2 ^ height ≤ 2 ^ bit := Nat.pow_le_pow_right (by omega) (by omega)
    rw [Nat.testBit_lt_two_pow (left_lt.trans_le power_le),
      Nat.testBit_lt_two_pow (right_lt.trans_le power_le)]

/-- The leaf selected by a key holds the value stored under that key, or is empty. -/
theorem leaf_pathItems (node : δ → δ → δ) (leaf : ℕ → δ → δ) (emptyLeaf : δ)
    {height key : ℕ} {items : List (ℕ × δ)} (nodup : (items.map Prod.fst).Nodup)
    (bounded : ∀ item ∈ items, item.1 < 2 ^ height) (key_lt : key < 2 ^ height) :
    subtreeHash node leaf emptyLeaf 0 (pathItems key height items) =
      match OrderedDict.findValue key items with
      | none => emptyLeaf
      | some value => leaf key value := by
  have selected : ∀ item ∈ pathItems key height items, item.1 = key ∧ item ∈ items := by
    intro item member
    obtain ⟨stored, agrees⟩ := (mem_pathItems key height items item).mp member
    exact ⟨eq_of_testBit_below (bounded item stored) key_lt agrees, stored⟩
  cases found : OrderedDict.findValue key items with
  | none =>
      have absent := (OrderedDict.findValue_eq_none_iff key items).mp found
      have path_nil : pathItems key height items = [] := by
        apply List.eq_nil_iff_forall_not_mem.mpr
        intro item member
        obtain ⟨key_eq, stored⟩ := selected item member
        exact absent (key_eq ▸ List.mem_map_of_mem stored)
      simp [path_nil, defaultHash]
  | some value =>
      have stored := (OrderedDict.findValue_eq_some_iff nodup key value).mp found
      have member : (key, value) ∈ pathItems key height items :=
        (mem_pathItems key height items _).mpr ⟨stored, fun _ _ => rfl⟩
      cases path_eq : pathItems key height items with
      | nil => simp [path_eq] at member
      | cons item rest =>
          obtain ⟨key_eq, item_stored⟩ := selected item (path_eq ▸ List.mem_cons_self)
          have item_found : OrderedDict.findValue key items = some item.2 :=
            (OrderedDict.findValue_eq_some_iff nodup key item.2).mpr (key_eq ▸ item_stored)
          have value_eq : item.2 = value := Option.some.inj (item_found.symm.trans found)
          simp [subtreeHash, key_eq, value_eq]

/-! ## Faithful commitments -/

section Faithful

theorem mem_half (side : Bool) (bit : ℕ) (items : List (ℕ × δ)) (item : ℕ × δ) :
    item ∈ half side bit items ↔ item ∈ items ∧ item.1.testBit bit = side := by
  simp [half]

theorem nodup_half {items : List (ℕ × δ)} (nodup : (items.map Prod.fst).Nodup) (side : Bool)
    (bit : ℕ) : ((half side bit items).map Prod.fst).Nodup :=
  nodup.sublist (List.filter_sublist.map Prod.fst)

theorem prefix_half {height top : ℕ} {items : List (ℕ × δ)}
    (agree : ∀ item ∈ items, item.1 / 2 ^ (height + 1) = top) (side : Bool) :
    ∀ item ∈ half side height items, item.1 / 2 ^ height = 2 * top + side.toNat := by
  intro item member
  obtain ⟨stored, bit_eq⟩ := (mem_half side height items item).mp member
  have above := agree item stored
  rw [Nat.pow_succ, ← Nat.div_div_eq_div_mul] at above
  rw [Nat.testBit_eq_decide_div_mod_eq] at bit_eq
  cases side with
  | false =>
      have even := of_decide_eq_false bit_eq
      simp only [Bool.toNat_false]
      omega
  | true =>
      have odd := of_decide_eq_true bit_eq
      simp only [Bool.toNat_true]
      omega

theorem same_entries_iff_halves (bit : ℕ) (items others : List (ℕ × δ)) :
    (∀ item, item ∈ items ↔ item ∈ others) ↔
      ∀ side item, item ∈ half side bit items ↔ item ∈ half side bit others := by
  constructor
  · intro same side item
    rw [mem_half, mem_half, same item]
  · intro same item
    have same_side := same (item.1.testBit bit) item
    simpa only [mem_half, and_true] using same_side

theorem entries_of_one_key {key : ℕ} {items : List (ℕ × δ)} (nodup : (items.map Prod.fst).Nodup)
    (agree : ∀ item ∈ items, item.1 = key) : items = [] ∨ ∃ value, items = [(key, value)] := by
  cases items with
  | nil => exact .inl rfl
  | cons item rest =>
      have key_eq := agree item List.mem_cons_self
      refine .inr ⟨item.2, ?_⟩
      cases rest with
      | nil => rw [← key_eq]
      | cons other rest =>
          have other_eq := agree other (List.mem_cons_of_mem _ List.mem_cons_self)
          simp [key_eq, other_eq] at nodup

variable {node : δ → δ → δ} {leaf : ℕ → δ → δ} {emptyLeaf : δ}

/-- Two leaves of one key have the same digest exactly when they hold the same entries. -/
theorem leaf_eq_iff
    (leaf_injective : ∀ key value value', leaf key value = leaf key value' → value = value')
    (leaf_ne_empty : ∀ key value, leaf key value ≠ emptyLeaf) {key : ℕ}
    {items others : List (ℕ × δ)} (nodup : (items.map Prod.fst).Nodup)
    (nodup' : (others.map Prod.fst).Nodup) (agree : ∀ item ∈ items, item.1 = key)
    (agree' : ∀ item ∈ others, item.1 = key) :
    subtreeHash node leaf emptyLeaf 0 items = subtreeHash node leaf emptyLeaf 0 others ↔
      ∀ item, item ∈ items ↔ item ∈ others := by
  rcases entries_of_one_key nodup agree with rfl | ⟨value, rfl⟩
  · rcases entries_of_one_key nodup' agree' with rfl | ⟨value', rfl⟩
    · simp
    · constructor
      · intro equality
        exact absurd equality.symm (leaf_ne_empty key value')
      · intro same
        exact absurd ((same _).mpr List.mem_cons_self) List.not_mem_nil
  · rcases entries_of_one_key nodup' agree' with rfl | ⟨value', rfl⟩
    · constructor
      · intro equality
        exact absurd equality (leaf_ne_empty key value)
      · intro same
        exact absurd ((same _).mp List.mem_cons_self) List.not_mem_nil
    · constructor
      · intro equality
        have value_eq : value = value' := leaf_injective key value value' equality
        rw [value_eq]
        exact fun _ => Iff.rfl
      · intro same
        have member := (same (key, value)).mp List.mem_cons_self
        rw [List.mem_singleton.mp member]

/-- Two subtrees at one place have the same digest exactly when they hold the same entries. -/
theorem subtreeHash_eq_iff
    (node_injective : ∀ {left right left' right' : δ},
      node left right = node left' right' → left = left' ∧ right = right')
    (leaf_injective : ∀ key value value', leaf key value = leaf key value' → value = value')
    (leaf_ne_empty : ∀ key value, leaf key value ≠ emptyLeaf) {height top : ℕ}
    {items others : List (ℕ × δ)} (nodup : (items.map Prod.fst).Nodup)
    (nodup' : (others.map Prod.fst).Nodup) (agree : ∀ item ∈ items, item.1 / 2 ^ height = top)
    (agree' : ∀ item ∈ others, item.1 / 2 ^ height = top) :
    subtreeHash node leaf emptyLeaf height items = subtreeHash node leaf emptyLeaf height others ↔
      ∀ item, item ∈ items ↔ item ∈ others := by
  induction height generalizing top items others with
  | zero =>
      simp only [Nat.pow_zero, Nat.div_one] at agree agree'
      exact leaf_eq_iff leaf_injective leaf_ne_empty nodup nodup' agree agree'
  | succ height induction =>
      have halves := fun side => induction (nodup_half nodup side height)
        (nodup_half nodup' side height) (prefix_half agree side) (prefix_half agree' side)
      rw [subtreeHash_succ, subtreeHash_succ, same_entries_iff_halves height, Bool.forall_bool,
        ← halves false, ← halves true]
      constructor
      · exact node_injective
      · rintro ⟨left_eq, right_eq⟩
        rw [left_eq, right_eq]

end Faithful

end SparseTree
