import Mathlib.Data.List.Nodup
import Mathlib.Tactic.Tauto

/-!
# Insertion-ordered dictionaries

A dictionary keeps its entries in insertion order.  Setting a present key replaces the value in
place; setting a fresh key appends an entry.  Duplicate keys cannot be represented.
-/

namespace OrderedDict

variable {κ ν : Type*} [DecidableEq κ]

/-- First value stored under a key in a list of entries. -/
def findValue (key : κ) : List (κ × ν) → Option ν
  | [] => none
  | entry :: entries => if entry.1 = key then some entry.2 else findValue key entries

/-- Replace the value of a present key in place, or append a fresh entry. -/
def setEntry (key : κ) (value : ν) : List (κ × ν) → List (κ × ν)
  | [] => [(key, value)]
  | entry :: entries =>
      if entry.1 = key then (key, value) :: entries else entry :: setEntry key value entries

theorem findValue_setEntry (key other : κ) (value : ν) (entries : List (κ × ν)) :
    findValue other (setEntry key value entries) =
      if key = other then some value else findValue other entries := by
  induction entries with
  | nil => simp [setEntry, findValue]
  | cons entry entries induction =>
      by_cases head_eq : entry.1 = key
      · by_cases key_eq : key = other
        · simp [setEntry, findValue, head_eq, key_eq]
        · have head_ne : entry.1 ≠ other := fun equality => key_eq (head_eq.symm.trans equality)
          simp [setEntry, findValue, head_eq, key_eq]
      · by_cases head_other : entry.1 = other
        · have key_ne : key ≠ other := fun equality => head_eq (head_other.trans equality.symm)
          simp [setEntry, findValue, head_other, key_ne, Ne.symm key_ne]
        · simp [setEntry, findValue, head_eq, head_other, induction]

theorem keys_setEntry (key : κ) (value : ν) (entries : List (κ × ν)) :
    (setEntry key value entries).map Prod.fst =
      if key ∈ entries.map Prod.fst then entries.map Prod.fst
      else entries.map Prod.fst ++ [key] := by
  induction entries with
  | nil => simp [setEntry]
  | cons entry entries induction =>
      by_cases head_eq : entry.1 = key
      · simp [setEntry, head_eq]
      · have head_ne : key ≠ entry.1 := fun equality => head_eq equality.symm
        simp only [setEntry, head_eq, if_false, List.map_cons, induction, List.mem_cons,
          head_ne, false_or]
        split <;> simp

theorem nodup_setEntry {entries : List (κ × ν)} (nodup : (entries.map Prod.fst).Nodup)
    (key : κ) (value : ν) : ((setEntry key value entries).map Prod.fst).Nodup := by
  rw [keys_setEntry]
  split
  · exact nodup
  · next absent => simpa using List.Nodup.concat absent nodup

/-- An entry after a store is the stored one or was there before. -/
theorem mem_setEntry {key : κ} {value : ν} {entries : List (κ × ν)} {entry : κ × ν}
    (member : entry ∈ setEntry key value entries) : entry = (key, value) ∨ entry ∈ entries := by
  induction entries with
  | nil => exact .inl (List.mem_singleton.mp member)
  | cons first entries induction =>
      rw [setEntry] at member
      split at member
      · rcases List.mem_cons.mp member with rfl | member
        · exact .inl rfl
        · exact .inr (List.mem_cons_of_mem _ member)
      · rcases List.mem_cons.mp member with rfl | member
        · exact .inr List.mem_cons_self
        · rcases induction member with rfl | member
          · exact .inl rfl
          · exact .inr (List.mem_cons_of_mem _ member)

theorem setEntry_of_notMem {key : κ} {entries : List (κ × ν)}
    (absent : key ∉ entries.map Prod.fst) (value : ν) :
    setEntry key value entries = entries ++ [(key, value)] := by
  induction entries with
  | nil => rfl
  | cons entry entries induction =>
      simp only [List.map_cons, List.mem_cons, not_or] at absent
      simp [setEntry, Ne.symm absent.1, induction absent.2]

theorem setEntry_append {key : κ} {front : List (κ × ν)} (absent : key ∉ front.map Prod.fst)
    (old new : ν) (back : List (κ × ν)) :
    setEntry key new (front ++ (key, old) :: back) = front ++ (key, new) :: back := by
  induction front with
  | nil => simp [setEntry]
  | cons entry front induction =>
      simp only [List.map_cons, List.mem_cons, not_or] at absent
      simp [setEntry, Ne.symm absent.1, induction absent.2]

theorem findValue_eq_some_iff {entries : List (κ × ν)} (nodup : (entries.map Prod.fst).Nodup)
    (key : κ) (value : ν) : findValue key entries = some value ↔ (key, value) ∈ entries := by
  induction entries with
  | nil => simp [findValue]
  | cons entry entries induction =>
      obtain ⟨head, stored⟩ := entry
      simp only [List.map_cons, List.nodup_cons] at nodup
      by_cases head_eq : head = key
      · have absent : (key, value) ∉ entries := by
          intro member
          exact nodup.1 (head_eq ▸ List.mem_map_of_mem member)
        simp [findValue, head_eq, absent, eq_comm]
      · simp [findValue, head_eq, Ne.symm head_eq, induction nodup.2]

theorem findValue_eq_none_iff (key : κ) (entries : List (κ × ν)) :
    findValue key entries = none ↔ key ∉ entries.map Prod.fst := by
  induction entries with
  | nil => simp [findValue]
  | cons entry entries induction =>
      by_cases head_eq : entry.1 = key
      · simp [findValue, head_eq]
      · have head_ne : key ≠ entry.1 := fun equality => head_eq equality.symm
        simp only [findValue, head_eq, if_false, induction, List.map_cons, List.mem_cons,
          head_ne, false_or]

theorem findValue_filter_ne (key other : κ) (entries : List (κ × ν)) :
    findValue other (entries.filter fun entry => entry.1 ≠ key) =
      if key = other then none else findValue other entries := by
  induction entries with
  | nil => simp [findValue]
  | cons entry entries induction =>
      by_cases head_eq : entry.1 = key
      · by_cases key_eq : key = other
        · simpa [head_eq, key_eq] using induction
        · have head_ne : ¬ entry.1 = other := fun equality => key_eq (head_eq.symm.trans equality)
          simpa [head_eq, findValue, key_eq] using induction
      · by_cases head_other : entry.1 = other
        · have key_ne : key ≠ other := fun equality => head_eq (head_other.trans equality.symm)
          simp [head_other, findValue, key_ne, Ne.symm key_ne]
        · simp only [ne_eq, decide_not] at induction
          simp [head_eq, findValue, head_other, induction]

theorem findValue_map (change : ν → ν) (key : κ) (entries : List (κ × ν)) :
    findValue key (entries.map fun entry => (entry.1, change entry.2)) =
      (findValue key entries).map change := by
  induction entries with
  | nil => rfl
  | cons entry entries induction =>
      rw [List.map_cons, findValue, findValue, induction]
      split <;> rfl

theorem findValue_filter (keep : κ → Bool) (key : κ) (entries : List (κ × ν)) :
    findValue key (entries.filter fun entry => keep entry.1) =
      if keep key = true then findValue key entries else none := by
  induction entries with
  | nil => simp [findValue]
  | cons entry entries induction =>
      by_cases head_eq : entry.1 = key
      · by_cases kept : keep key = true
        · simp [findValue, head_eq, kept]
        · simpa [head_eq, kept] using induction
      · by_cases kept : keep entry.1 = true
        · simp [findValue, head_eq, kept, induction]
        · simp [findValue, head_eq, kept, induction]

end OrderedDict

/-- Finite dictionary whose entries keep their insertion order. -/
@[ext]
structure OrderedDict (κ ν : Type*) where
  /-- Stored entries, oldest key first. -/
  entries : List (κ × ν)
  /-- Every key occurs once. -/
  nodup : (entries.map Prod.fst).Nodup
  deriving DecidableEq

namespace OrderedDict

variable {κ ν : Type*}

/-- The dictionary without entries. -/
def empty : OrderedDict κ ν := ⟨[], List.nodup_nil⟩

instance : EmptyCollection (OrderedDict κ ν) := ⟨empty⟩

/-- Keys in insertion order. -/
def keys (dict : OrderedDict κ ν) : List κ := dict.entries.map Prod.fst

/-- Values in insertion order. -/
def values (dict : OrderedDict κ ν) : List ν := dict.entries.map Prod.snd

variable [DecidableEq κ]

/-- Value stored under a key. -/
def get? (dict : OrderedDict κ ν) (key : κ) : Option ν := findValue key dict.entries

/-- Store a value under a key. -/
def set (dict : OrderedDict κ ν) (key : κ) (value : ν) : OrderedDict κ ν :=
  ⟨setEntry key value dict.entries, nodup_setEntry dict.nodup key value⟩

/-- Remove a key when it is present. -/
def erase (dict : OrderedDict κ ν) (key : κ) : OrderedDict κ ν :=
  ⟨dict.entries.filter fun entry => entry.1 ≠ key,
    dict.nodup.sublist (List.filter_sublist.map Prod.fst)⟩

/-- Keep the entries whose key passes a test. -/
def filterKeys (dict : OrderedDict κ ν) (keep : κ → Bool) : OrderedDict κ ν :=
  ⟨dict.entries.filter fun entry => keep entry.1,
    dict.nodup.sublist (List.filter_sublist.map Prod.fst)⟩

/-- Change every value. -/
def mapValues (dict : OrderedDict κ ν) (change : ν → ν) : OrderedDict κ ν :=
  ⟨dict.entries.map fun entry => (entry.1, change entry.2), by
    simpa only [List.map_map, Function.comp_def] using dict.nodup⟩

/-- Store every pair of a list, in order. -/
def setAll (dict : OrderedDict κ ν) (pairs : List (κ × ν)) : OrderedDict κ ν :=
  pairs.foldl (fun current pair => current.set pair.1 pair.2) dict

@[simp]
theorem get?_empty (key : κ) : (∅ : OrderedDict κ ν).get? key = none := rfl

omit [DecidableEq κ] in
theorem keys_eq_nil_iff (dict : OrderedDict κ ν) : dict.keys = [] ↔ dict = ∅ := by
  constructor
  · intro keys_nil
    have entries_nil : dict.entries = [] := List.map_eq_nil_iff.mp keys_nil
    cases dict with
    | mk entries nodup =>
        subst entries_nil
        rfl
  · rintro rfl
    rfl

theorem get?_set (dict : OrderedDict κ ν) (key other : κ) (value : ν) :
    (dict.set key value).get? other = if key = other then some value else dict.get? other :=
  findValue_setEntry key other value dict.entries

@[simp]
theorem get?_set_self (dict : OrderedDict κ ν) (key : κ) (value : ν) :
    (dict.set key value).get? key = some value := by
  simp [get?_set]

/-- A fresh key is appended. -/
theorem entries_set_of_notMem (dict : OrderedDict κ ν) {key : κ} (absent : key ∉ dict.keys)
    (value : ν) : (dict.set key value).entries = dict.entries ++ [(key, value)] :=
  setEntry_of_notMem absent value

theorem get?_set_of_ne (dict : OrderedDict κ ν) {key other : κ} (key_ne : key ≠ other)
    (value : ν) : (dict.set key value).get? other = dict.get? other := by
  simp [get?_set, key_ne]

theorem get?_erase (dict : OrderedDict κ ν) (key other : κ) :
    (dict.erase key).get? other = if key = other then none else dict.get? other :=
  findValue_filter_ne key other dict.entries

theorem get?_filterKeys (dict : OrderedDict κ ν) (keep : κ → Bool) (key : κ) :
    (dict.filterKeys keep).get? key = if keep key = true then dict.get? key else none :=
  findValue_filter keep key dict.entries

theorem get?_mapValues (dict : OrderedDict κ ν) (change : ν → ν) (key : κ) :
    (dict.mapValues change).get? key = (dict.get? key).map change :=
  findValue_map change key dict.entries

theorem get?_eq_some_iff (dict : OrderedDict κ ν) (key : κ) (value : ν) :
    dict.get? key = some value ↔ (key, value) ∈ dict.entries :=
  findValue_eq_some_iff dict.nodup key value

theorem get?_eq_none_iff (dict : OrderedDict κ ν) (key : κ) :
    dict.get? key = none ↔ key ∉ dict.keys :=
  findValue_eq_none_iff key dict.entries

theorem mem_values_iff (dict : OrderedDict κ ν) (value : ν) :
    value ∈ dict.values ↔ ∃ key, dict.get? key = some value := by
  simp [values, get?_eq_some_iff]

theorem mem_keys_set (dict : OrderedDict κ ν) (key other : κ) (value : ν) :
    other ∈ (dict.set key value).keys ↔ other = key ∨ other ∈ dict.keys := by
  unfold keys set
  rw [keys_setEntry]
  split
  · next present =>
      constructor
      · exact Or.inr
      · rintro (rfl | member)
        · exact present
        · exact member
  · simp [or_comm]

@[simp]
theorem setAll_nil (dict : OrderedDict κ ν) : dict.setAll [] = dict := rfl

@[simp]
theorem setAll_cons (dict : OrderedDict κ ν) (pair : κ × ν) (pairs : List (κ × ν)) :
    dict.setAll (pair :: pairs) = (dict.set pair.1 pair.2).setAll pairs := rfl

theorem setAll_append (dict : OrderedDict κ ν) (left right : List (κ × ν)) :
    dict.setAll (left ++ right) = (dict.setAll left).setAll right :=
  List.foldl_append

theorem mem_keys_setAll (dict : OrderedDict κ ν) (pairs : List (κ × ν)) (other : κ) :
    other ∈ (dict.setAll pairs).keys ↔ other ∈ pairs.map Prod.fst ∨ other ∈ dict.keys := by
  induction pairs generalizing dict with
  | nil => simp
  | cons pair pairs induction =>
      rw [setAll_cons, induction, mem_keys_set, List.map_cons, List.mem_cons]
      tauto

theorem get?_setAll_of_notMem (dict : OrderedDict κ ν) {pairs : List (κ × ν)} {key : κ}
    (absent : key ∉ pairs.map Prod.fst) : (dict.setAll pairs).get? key = dict.get? key := by
  induction pairs generalizing dict with
  | nil => rfl
  | cons pair pairs induction =>
      simp only [List.map_cons, List.mem_cons, not_or] at absent
      rw [setAll_cons, induction _ absent.2]
      exact get?_set_of_ne dict (Ne.symm absent.1) pair.2

theorem get?_setAll_of_mem (dict : OrderedDict κ ν) {pairs : List (κ × ν)}
    (nodup : (pairs.map Prod.fst).Nodup) {key : κ} {value : ν} (member : (key, value) ∈ pairs) :
    (dict.setAll pairs).get? key = some value := by
  induction pairs generalizing dict with
  | nil => cases member
  | cons pair pairs induction =>
      simp only [List.map_cons, List.nodup_cons] at nodup
      rw [setAll_cons]
      rcases List.mem_cons.mp member with rfl | member
      · rw [get?_setAll_of_notMem _ nodup.1, get?_set_self]
      · exact induction _ nodup.2 member

theorem get?_setAll_eq_some (dict : OrderedDict κ ν) {pairs : List (κ × ν)} {key : κ} {value : ν}
    (found : (dict.setAll pairs).get? key = some value) :
    (key, value) ∈ pairs ∨ key ∉ pairs.map Prod.fst ∧ dict.get? key = some value := by
  induction pairs generalizing dict with
  | nil => exact Or.inr ⟨by simp, found⟩
  | cons pair pairs induction =>
      rcases induction _ found with member | ⟨absent, earlier⟩
      · exact Or.inl (List.mem_cons_of_mem pair member)
      · rw [get?_set] at earlier
        split at earlier
        · next key_eq =>
            left
            rw [← key_eq, ← Option.some.inj earlier]
            exact List.mem_cons_self
        · next key_ne =>
            exact Or.inr ⟨by simp [Ne.symm key_ne, absent], earlier⟩

/-! ## Writing again -/

theorem ext_get? {left right : OrderedDict κ ν} (keys_eq : left.keys = right.keys)
    (get_eq : ∀ key, left.get? key = right.get? key) : left = right := by
  have length_eq := congrArg List.length keys_eq
  simp only [keys, List.length_map] at length_eq
  refine OrderedDict.ext (List.ext_getElem length_eq fun index left_lt right_lt => ?_)
  have left_mem := List.getElem_mem left_lt
  have right_mem := List.getElem_mem right_lt
  have key_eq : left.entries[index].1 = right.entries[index].1 := by
    have heads := List.getElem_of_eq keys_eq (by simpa [keys] using left_lt)
    simpa only [keys, List.getElem_map] using heads
  have found := (get?_eq_some_iff left _ _).mpr left_mem
  rw [get_eq, get?_eq_some_iff] at found
  exact List.inj_on_of_nodup_map right.nodup found right_mem key_eq

theorem keys_set_of_mem (dict : OrderedDict κ ν) {key : κ} (present : key ∈ dict.keys) (value : ν) :
    (dict.set key value).keys = dict.keys := by
  rw [keys, set, keys_setEntry]
  exact if_pos present

theorem keys_setAll_of_subset (dict : OrderedDict κ ν) {pairs : List (κ × ν)}
    (present : ∀ key ∈ pairs.map Prod.fst, key ∈ dict.keys) :
    (dict.setAll pairs).keys = dict.keys := by
  induction pairs generalizing dict with
  | nil => rfl
  | cons pair pairs induction =>
      rw [List.map_cons, List.forall_mem_cons] at present
      rw [setAll_cons, induction, keys_set_of_mem dict present.1]
      intro key member
      rw [keys_set_of_mem dict present.1]
      exact present.2 key member

theorem get?_setAll_congr (dict other : OrderedDict κ ν) {pairs : List (κ × ν)} {key : κ}
    (written : key ∈ pairs.map Prod.fst) :
    (dict.setAll pairs).get? key = (other.setAll pairs).get? key := by
  induction pairs generalizing dict other with
  | nil => cases written
  | cons pair pairs induction =>
      rw [setAll_cons, setAll_cons]
      by_cases later : key ∈ pairs.map Prod.fst
      · exact induction _ _ later
      · obtain rfl : key = pair.1 := by
          rw [List.map_cons] at written
          exact (List.mem_cons.mp written).resolve_right later
        rw [get?_setAll_of_notMem _ later, get?_setAll_of_notMem _ later, get?_set_self,
          get?_set_self]

theorem setAll_setAll (dict : OrderedDict κ ν) (pairs : List (κ × ν)) :
    (dict.setAll pairs).setAll pairs = dict.setAll pairs := by
  apply ext_get?
  · exact keys_setAll_of_subset _ fun key member =>
      (mem_keys_setAll dict pairs key).mpr (.inl member)
  · intro key
    by_cases written : key ∈ pairs.map Prod.fst
    · exact get?_setAll_congr _ _ written
    · exact get?_setAll_of_notMem _ written

theorem set_set (dict : OrderedDict κ ν) (key : κ) (value : ν) :
    (dict.set key value).set key value = dict.set key value :=
  dict.setAll_setAll [(key, value)]

/-- A stored entry is what it is when it is stored again. -/
theorem set_eq_self_iff (dict : OrderedDict κ ν) (key : κ) (value : ν) :
    dict.set key value = dict ↔ dict.get? key = some value := by
  constructor
  · intro unchanged
    rw [← unchanged, get?_set_self]
  · intro stored
    refine ext_get? (keys_set_of_mem dict ?_ value) fun other => ?_
    · by_contra absent
      rw [(get?_eq_none_iff dict key).mpr absent] at stored
      cases stored
    · rw [get?_set]
      split
      next same => rw [← same, stored]
      · rfl

omit [DecidableEq κ] in
/-- Filtering keeps everything exactly when every key passes. -/
theorem filterKeys_eq_self_iff (dict : OrderedDict κ ν) (keep : κ → Bool) :
    dict.filterKeys keep = dict ↔ ∀ key ∈ dict.keys, keep key = true := by
  cases dict with
  | mk entries nodup => simp [filterKeys, keys, List.filter_eq_self]

/-- A prefix of the pairs, and then all of them. -/
theorem setAll_take_setAll (dict : OrderedDict κ ν) (pairs : List (κ × ν)) (count : ℕ) :
    (dict.setAll (pairs.take count)).setAll pairs = dict.setAll pairs := by
  conv_lhs => rw [← List.take_append_drop count pairs, setAll_append]
  rw [List.take_append_drop, setAll_setAll, ← setAll_append, List.take_append_drop]

/-! ## Defaults -/

/-- `setdefault`: a present key keeps its value. -/
def setDefault (dict : OrderedDict κ ν) (key : κ) (value : ν) : OrderedDict κ ν :=
  if (dict.get? key).isSome then dict else dict.set key value

/-- `setdefault` for each pair in turn. -/
def setDefaults (dict : OrderedDict κ ν) (pairs : List (κ × ν)) : OrderedDict κ ν :=
  pairs.foldl (fun dict pair => dict.setDefault pair.1 pair.2) dict

theorem get?_setDefault (dict : OrderedDict κ ν) (key other : κ) (value : ν) :
    (dict.setDefault key value).get? other =
      (dict.get? other).or (if key = other then some value else none) := by
  rw [setDefault]
  split
  · next present =>
      split
      · next key_eq =>
          obtain ⟨found, found_eq⟩ := Option.isSome_iff_exists.mp present
          rw [← key_eq, found_eq]
          rfl
      · rw [Option.or_none]
  · next absent =>
      rw [get?_set]
      split
      · next key_eq =>
          rw [← key_eq, Option.not_isSome_iff_eq_none.mp absent]
          rfl
      · rw [Option.or_none]

theorem get?_setDefaults (dict : OrderedDict κ ν) (pairs : List (κ × ν)) (key : κ) :
    (dict.setDefaults pairs).get? key = (dict.get? key).or (findValue key pairs) := by
  induction pairs generalizing dict with
  | nil => exact (Option.or_none).symm
  | cons pair pairs induction =>
      calc
        ((dict.setDefault pair.1 pair.2).setDefaults pairs).get? key =
            ((dict.get? key).or (if pair.1 = key then some pair.2 else none)).or
              (findValue key pairs) := by rw [induction, get?_setDefault]
        _ = (dict.get? key).or (findValue key (pair :: pairs)) := by
          rw [Option.or_assoc, findValue]
          split <;> rfl

theorem setDefaults_append (dict : OrderedDict κ ν) (pairs others : List (κ × ν)) :
    dict.setDefaults (pairs ++ others) = (dict.setDefaults pairs).setDefaults others :=
  List.foldl_append

/-- The value found under a key stands in the list. -/
theorem mem_of_findValue {entries : List (κ × ν)} {key : κ} {value : ν}
    (found : findValue key entries = some value) : (key, value) ∈ entries := by
  induction entries with
  | nil => cases found
  | cons entry entries induction =>
      rw [findValue] at found
      split at found
      · next key_eq =>
          rw [← key_eq, ← Option.some.inj found]
          exact List.mem_cons_self
      · exact List.mem_cons_of_mem entry (induction found)

theorem get?_setAll_perm (dict : OrderedDict κ ν) {pairs : List (κ × ν)}
    (perm : pairs.Perm dict.entries) (key : κ) :
    ((∅ : OrderedDict κ ν).setAll pairs).get? key = dict.get? key := by
  cases found : dict.get? key with
  | none =>
      have absent := (get?_eq_none_iff dict key).mp found
      apply get?_setAll_of_notMem
      rwa [(perm.map Prod.fst).mem_iff]
  | some value =>
      apply get?_setAll_of_mem
      · exact (perm.map Prod.fst).nodup_iff.mpr dict.nodup
      · exact perm.mem_iff.mpr ((get?_eq_some_iff dict key value).mp found)

/-! ## Both ends of a dictionary -/

theorem get?_of_entries_cons {dict : OrderedDict κ ν} {entry : κ × ν} {rest : List (κ × ν)}
    (entries_eq : dict.entries = entry :: rest) : dict.get? entry.1 = some entry.2 := by
  rw [get?_eq_some_iff, entries_eq]
  exact List.mem_cons_self

theorem entries_erase_first {dict : OrderedDict κ ν} {entry : κ × ν} {rest : List (κ × ν)}
    (entries_eq : dict.entries = entry :: rest) : (dict.erase entry.1).entries = rest := by
  have nodup := dict.nodup
  rw [entries_eq, List.map_cons, List.nodup_cons] at nodup
  have kept : rest.filter (fun other => decide (other.1 ≠ entry.1)) = rest := by
    apply List.filter_eq_self.mpr
    intro other member
    apply decide_eq_true
    intro key_eq
    exact nodup.1 (key_eq ▸ List.mem_map_of_mem member)
  rw [erase]
  simp only [entries_eq, List.filter_cons, ne_eq, not_true_eq_false, decide_false,
    Bool.false_eq_true, if_false]
  exact kept

/-- Erasing the keys of the first entries leaves the others. -/
theorem entries_foldl_erase {α : Type*} (key : α → κ) (value : α → ν) {items : List α}
    {dict : OrderedDict κ ν} {rest : List (κ × ν)}
    (entries_eq : dict.entries = items.map (fun item => (key item, value item)) ++ rest) :
    (items.foldl (fun dict item => dict.erase (key item)) dict).entries = rest := by
  induction items generalizing dict with
  | nil => exact entries_eq
  | cons item items induction => exact induction (entries_erase_first entries_eq)

theorem get?_of_entries_concat {dict : OrderedDict κ ν} {front : List (κ × ν)} {entry : κ × ν}
    (entries_eq : dict.entries = front ++ [entry]) : dict.get? entry.1 = some entry.2 := by
  rw [get?_eq_some_iff, entries_eq]
  exact List.mem_append_right _ List.mem_cons_self

/-- A new value for a present key stands in the place of the old one. -/
theorem entries_set_of_split {dict : OrderedDict κ ν} {front back : List (κ × ν)} {entry : κ × ν}
    (entries_eq : dict.entries = front ++ entry :: back) (value : ν) :
    (dict.set entry.1 value).entries = front ++ (entry.1, value) :: back := by
  have nodup := dict.nodup
  rw [entries_eq, List.map_append] at nodup
  have absent : entry.1 ∉ front.map Prod.fst := fun member =>
    List.disjoint_of_nodup_append nodup member List.mem_cons_self
  calc
    (dict.set entry.1 value).entries = setEntry entry.1 value dict.entries := rfl
    _ = front ++ (entry.1, value) :: back := by rw [entries_eq, setEntry_append absent]

theorem entries_set_last {dict : OrderedDict κ ν} {front : List (κ × ν)} {entry : κ × ν}
    (entries_eq : dict.entries = front ++ [entry]) (value : ν) :
    (dict.set entry.1 value).entries = front ++ [(entry.1, value)] :=
  entries_set_of_split entries_eq value

/-- Erasing a key also takes back what was just stored under it. -/
theorem erase_set (dict : OrderedDict κ ν) (key : κ) (value : ν) :
    (dict.set key value).erase key = dict.erase key := by
  have filtered : ∀ entries : List (κ × ν),
      (setEntry key value entries).filter (fun entry => decide (entry.1 ≠ key)) =
        entries.filter fun entry => decide (entry.1 ≠ key) := by
    intro entries
    induction entries with
    | nil => simp [setEntry]
    | cons entry entries induction =>
        by_cases head_eq : entry.1 = key
        · simp [setEntry, head_eq]
        · simpa [setEntry, head_eq] using induction
  exact OrderedDict.ext (filtered dict.entries)

/-- A key that is not there need not be erased. -/
theorem erase_of_notMem (dict : OrderedDict κ ν) {key : κ} (absent : key ∉ dict.keys) :
    dict.erase key = dict := by
  refine OrderedDict.ext (List.filter_eq_self.mpr fun entry member => ?_)
  exact decide_eq_true fun same => absent (same ▸ List.mem_map_of_mem member)

/-! ## Updating with another dictionary -/

/-- `update`: store all entries of another dictionary. -/
def update (dict other : OrderedDict κ ν) : OrderedDict κ ν := dict.setAll other.entries

theorem get?_update (dict other : OrderedDict κ ν) (key : κ) :
    (dict.update other).get? key = (other.get? key).or (dict.get? key) := by
  cases found : other.get? key with
  | none =>
      rw [Option.none_or]
      exact get?_setAll_of_notMem dict ((get?_eq_none_iff other key).mp found)
  | some value =>
      exact get?_setAll_of_mem dict other.nodup ((get?_eq_some_iff other key value).mp found)

/-- The value of a key in the last of some dictionaries that has it. -/
def lastValue (key : κ) : List (OrderedDict κ ν) → Option ν
  | [] => none
  | dict :: rest => (lastValue key rest).or (dict.get? key)

theorem lastValue_append (key : κ) (left right : List (OrderedDict κ ν)) :
    lastValue key (left ++ right) = (lastValue key right).or (lastValue key left) := by
  induction left with
  | nil => simp [lastValue]
  | cons dict rest induction => simp [lastValue, induction, Option.or_assoc]

theorem get?_foldl_update (dict : OrderedDict κ ν) (dicts : List (OrderedDict κ ν)) (key : κ) :
    (dicts.foldl update dict).get? key = (lastValue key dicts).or (dict.get? key) := by
  induction dicts generalizing dict with
  | nil => rfl
  | cons head rest induction =>
      rw [List.foldl_cons, induction, get?_update, lastValue, Option.or_assoc]

/-- The last value is one that a dictionary has. -/
theorem exists_of_lastValue {key : κ} {dicts : List (OrderedDict κ ν)} {value : ν}
    (last : lastValue key dicts = some value) : ∃ dict ∈ dicts, dict.get? key = some value := by
  induction dicts with
  | nil => cases last
  | cons dict rest induction =>
      rcases Option.or_eq_some_iff.mp last with later | ⟨-, here⟩
      · obtain ⟨found, member, found_eq⟩ := induction later
        exact ⟨found, List.mem_cons_of_mem _ member, found_eq⟩
      · exact ⟨dict, List.mem_cons_self, here⟩

end OrderedDict
