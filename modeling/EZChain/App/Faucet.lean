import EZChain.ClaimSet
import EZChain.Library.Checks
import EZChain.Library.OrderedDict
import EZChain.Library.Runs
import EZChain.SymbolicDigest

/-!
# Faucet

Every engine keeps the next free value in a file of its own data directory, and all engines of one
backend directory write their genesis allocations to one store.  The file falls back to zero when
it is missing or damaged, and the store refuses nothing: allocations stay disjoint exactly as long
as every range that is registered is free.
-/

namespace EZChain

open Checks

/-! ## Faucet-state file -/

/-- The file `v2_faucet_state.json`, as far as the engine reads it. -/
inductive FaucetStateFile where
  | missing
  /-- Reading or parsing raises. -/
  | unparsable
  /-- A JSON value other than a dict. -/
  | notDict
  /-- A dict, with what `int` makes of the field `next_begin` if it is there. -/
  | dict (nextBegin : Option (Except String ℤ))

namespace FaucetStateFile

/-- `_load_v2_faucet_state`. -/
def load : FaucetStateFile → Except String ℤ
  | .missing => pure 0
  | .unparsable => pure 0
  | .notDict => pure 0
  | .dict nextBegin => do
      let nextBegin ← nextBegin.getD (.ok 0)
      pure (max 0 nextBegin)

/-- `_save_v2_faucet_state`. -/
def save (nextBegin : ℤ) : FaucetStateFile := .dict (some (.ok nextBegin))

/-- `_next_v2_faucet_range`: the range and the file afterwards. -/
def nextFaucetRange (file : FaucetStateFile) (amount : ℤ) :
    Except String (ValueRange × FaucetStateFile) := do
  let valueBegin ← file.load
  let value ← ValueRange.ofInts valueBegin (valueBegin + amount - 1)
  pure (value, save (value.valueEnd + 1))

theorem load_save {nextBegin : ℤ} (nonneg : 0 ≤ nextBegin) :
    (save nextBegin).load = .ok nextBegin :=
  congrArg Except.ok (max_eq_right nonneg)

theorem nextFaucetRange_eq_ok_iff {file next : FaucetStateFile} {amount : ℤ} {value : ValueRange} :
    file.nextFaucetRange amount = .ok (value, next) ↔
      file.load = .ok (value.valueBegin : ℤ) ∧
        (value.valueEnd : ℤ) = value.valueBegin + amount - 1 ∧
        next = save (value.valueEnd + 1) := by
  simp only [nextFaucetRange, bind_eq_ok, pure_eq_ok, Prod.mk.injEq, ValueRange.ofInts_eq_ok_iff]
  constructor
  · rintro ⟨valueBegin, loaded, range, ⟨begin_eq, end_eq⟩, rfl, rfl⟩
    rw [← begin_eq]
    exact ⟨loaded, end_eq.symm, rfl⟩
  · rintro ⟨loaded, end_eq, rfl⟩
    exact ⟨_, loaded, value, ⟨rfl, end_eq.symm⟩, rfl, rfl⟩

end FaucetStateFile

/-! ## Engines of one backend directory -/

/-- The write that an interrupted call does not reach. -/
inductive FaucetStop where
  | beforeFaucetState
  | beforeWallet
  | beforeStore
  deriving DecidableEq

/-- What the engines of one backend directory keep on disk. -/
structure FaucetBackend (D : Type) where
  /-- The faucet-state file of each data directory. -/
  faucetStateFiles : D → FaucetStateFile
  /-- The genesis values of each wallet, which lies in a data directory. -/
  genesisValues : D × Address → List ValueRange
  /-- The rows of the table of genesis allocations. -/
  genesisAllocations : List (Address × ValueRange)

/-- The call of an engine, or damage to the file of its data directory. -/
inductive FaucetEvent (D : Type) where
  | faucet (dataDir : D) (owner : Address) (amount : ℤ) (stop : Option FaucetStop)
  | registerGenesisValue (dataDir : D) (owner : Address) (value : ValueRange)
      (stop : Option FaucetStop)
  | damage (dataDir : D) (file : FaucetStateFile)

/-- Order of the rows in `list_genesis_allocations`. -/
def allocationLe (left right : Address × ValueRange) : Prop :=
  left.1.text < right.1.text ∨ left.1.text = right.1.text ∧ rangeLe left.2 right.2

instance decidableAllocationLe : DecidableRel allocationLe :=
  fun _ _ => inferInstanceAs (Decidable (_ ∨ _))

namespace FaucetBackend

variable {D : Type}

/-- A backend that no engine has used. -/
def new : FaucetBackend D := ⟨fun _ => .missing, fun _ => [], []⟩

/-- `save_genesis_allocation`: a row that is there already is left alone. -/
def saveGenesisAllocation (backend : FaucetBackend D) (owner : Address) (value : ValueRange) :
    FaucetBackend D :=
  if (owner, value) ∈ backend.genesisAllocations then backend
  else { backend with genesisAllocations := backend.genesisAllocations ++ [(owner, value)] }

/-- `list_genesis_allocations`. -/
def listGenesisAllocations (backend : FaucetBackend D) : OrderedDict Address (List ValueRange) :=
  (backend.genesisAllocations.insertionSort allocationLe).foldl
    (fun grouped row => grouped.set row.1 ((grouped.get? row.1).getD [] ++ [row.2])) ∅

variable [DecidableEq D]

/-- `WalletAccountV2.add_genesis_value`, whose record goes to the database of the wallet. -/
def addGenesisValue (backend : FaucetBackend D) (dataDir : D) (owner : Address)
    (value : ValueRange) : Except String (FaucetBackend D) := do
  require (value.valueEnd ≤ maxColumnInteger) "Python int too large to convert to SQLite INTEGER"
  pure { backend with
    genesisValues := Function.update backend.genesisValues (dataDir, owner)
      (backend.genesisValues (dataDir, owner) ++ [value]) }

/-- `V2LocalAppSession.register_genesis_value`: first the wallet, then the shared store. -/
def registerGenesisValue (backend : FaucetBackend D) (dataDir : D) (owner : Address)
    (value : ValueRange) (stop : Option FaucetStop) : Except String Unit × FaucetBackend D :=
  if stop = some .beforeFaucetState ∨ stop = some .beforeWallet then (.error "interrupted", backend)
  else
    match backend.addGenesisValue dataDir owner value with
    | .error error => (.error error, backend)
    | .ok recorded =>
        if stop = some .beforeStore then (.error "interrupted", recorded)
        else (.ok (), recorded.saveGenesisAllocation owner value)

/-- `TxEngine.faucet`: the minted range or the error, and the backend afterwards. -/
def faucet (backend : FaucetBackend D) (dataDir : D) (owner : Address) (amount : ℤ)
    (stop : Option FaucetStop) : Except String ValueRange × FaucetBackend D :=
  if amount ≤ 0 then (.error "amount_must_be_positive", backend)
  else if stop = some .beforeFaucetState then (.error "interrupted", backend)
  else
    match (backend.faucetStateFiles dataDir).nextFaucetRange amount with
    | .error error => (.error error, backend)
    | .ok (value, file) =>
        let minted := { backend with
          faucetStateFiles := Function.update backend.faucetStateFiles dataDir file }
        let (outcome, registered) := minted.registerGenesisValue dataDir owner value stop
        (outcome.map fun _ => value, registered)

/-- The backend after one event. -/
def handle (backend : FaucetBackend D) : FaucetEvent D → FaucetBackend D
  | .faucet dataDir owner amount stop => (backend.faucet dataDir owner amount stop).2
  | .registerGenesisValue dataDir owner value stop =>
      (backend.registerGenesisValue dataDir owner value stop).2
  | .damage dataDir file =>
      { backend with
        faucetStateFiles := Function.update backend.faucetStateFiles dataDir file }

/-- No atom belongs to two genesis allocations. -/
def AllocationsDisjoint (backend : FaucetBackend D) : Prop :=
  ∀ atom, ∀ first ∈ backend.genesisAllocations, ∀ second ∈ backend.genesisAllocations,
    first.2.containsValue atom = true → second.2.containsValue atom = true → first = second

/-- Every allocation is the owner's allocation of this very range or shares no atom with it. -/
def RangeFree (backend : FaucetBackend D) (owner : Address) (value : ValueRange) : Prop :=
  ∀ row ∈ backend.genesisAllocations, row = (owner, value) ∨ row.2.intersects value = false

/-- The event carries a range to the store: the one that `register_genesis_value` is called with, or
the one of the requested size that starts at the value in the file of the data directory. -/
inductive Carries (backend : FaucetBackend D) : FaucetEvent D → Address → ValueRange → Prop
  | faucet {dataDir : D} {owner : Address} {amount : ℤ} {value : ValueRange}
      (positive : 0 < amount)
      (loaded : (backend.faucetStateFiles dataDir).load = .ok (value.valueBegin : ℤ))
      (size_eq : (value.valueEnd : ℤ) = value.valueBegin + amount - 1)
      (fits : value.valueEnd ≤ maxColumnInteger) :
      Carries backend (.faucet dataDir owner amount none) owner value
  | registerGenesisValue {dataDir : D} {owner : Address} {value : ValueRange}
      (fits : value.valueEnd ≤ maxColumnInteger) :
      Carries backend (.registerGenesisValue dataDir owner value none) owner value

/-- The range that an event carries to the store is free. -/
def EventFree (backend : FaucetBackend D) (event : FaucetEvent D) : Prop :=
  ∀ owner value, backend.Carries event owner value → backend.RangeFree owner value

/-! ## What a call writes to the store -/

section Calls

variable {backend : FaucetBackend D} {dataDir : D} {owner : Address} {value : ValueRange}
  {stop : Option FaucetStop} {event : FaucetEvent D}

omit [DecidableEq D] in
theorem genesisAllocations_save_congr {other : FaucetBackend D}
    (same : other.genesisAllocations = backend.genesisAllocations) :
    (other.saveGenesisAllocation owner value).genesisAllocations =
      (backend.saveGenesisAllocation owner value).genesisAllocations := by
  simp only [saveGenesisAllocation, same]
  split_ifs
  · exact same
  · rfl

theorem addGenesisValue_eq_ok_iff {recorded : FaucetBackend D} :
    backend.addGenesisValue dataDir owner value = .ok recorded ↔
      value.valueEnd ≤ maxColumnInteger ∧
        recorded = { backend with
          genesisValues := Function.update backend.genesisValues (dataDir, owner)
            (backend.genesisValues (dataDir, owner) ++ [value]) } := by
  simp only [addGenesisValue, bind_eq_ok, require_eq_ok, exists_const, pure_eq_ok]
  exact and_congr_right' eq_comm

/-- A registration leaves the files alone, and writes its row if it runs to the end and the range
fits a column. -/
theorem registerGenesisValue_spec :
    (backend.registerGenesisValue dataDir owner value stop).2.faucetStateFiles =
        backend.faucetStateFiles ∧
      (backend.registerGenesisValue dataDir owner value stop).2.genesisAllocations =
        if stop = none ∧ value.valueEnd ≤ maxColumnInteger then
          (backend.saveGenesisAllocation owner value).genesisAllocations
        else backend.genesisAllocations := by
  have fits_iff : (∃ recorded, backend.addGenesisValue dataDir owner value = .ok recorded) ↔
      value.valueEnd ≤ maxColumnInteger := by
    simp only [addGenesisValue_eq_ok_iff, exists_and_left, exists_eq, and_true]
  rw [registerGenesisValue]
  cases added : backend.addGenesisValue dataDir owner value with
  | error message =>
      have not_fits : ¬ value.valueEnd ≤ maxColumnInteger := by
        rw [← fits_iff, added]
        simp only [reduceCtorEq, exists_false, not_false_eq_true]
      simp only [not_fits, and_false, if_false]
      split_ifs <;> exact ⟨rfl, rfl⟩
  | ok recorded =>
      obtain ⟨fits, recorded_eq⟩ := addGenesisValue_eq_ok_iff.mp added
      have same : recorded.genesisAllocations = backend.genesisAllocations := by
        rw [recorded_eq]
      cases stop with
      | none =>
          simp only [fits, and_self, if_true, reduceCtorEq, or_self, if_false]
          refine ⟨?_, genesisAllocations_save_congr same⟩
          rw [saveGenesisAllocation]
          split_ifs <;> rw [recorded_eq]
      | some point =>
          cases point <;> simp [recorded_eq]

theorem faucet_cases (backend : FaucetBackend D) (dataDir : D) (owner : Address) (amount : ℤ)
    (stop : Option FaucetStop) :
    (backend.faucet dataDir owner amount stop).2 = backend ∨
      ∃ value file, 0 < amount ∧ stop ≠ some .beforeFaucetState ∧
        (backend.faucetStateFiles dataDir).nextFaucetRange amount = .ok (value, file) ∧
        (backend.faucet dataDir owner amount stop).2 =
          ({ backend with
            faucetStateFiles := Function.update backend.faucetStateFiles dataDir file
              }.registerGenesisValue dataDir owner value stop).2 := by
  rw [faucet]
  split_ifs with not_positive not_started
  · exact .inl rfl
  · exact .inl rfl
  · cases minted : (backend.faucetStateFiles dataDir).nextFaucetRange amount with
    | error message => exact .inl rfl
    | ok result => exact .inr ⟨result.1, result.2, not_le.mp not_positive, not_started, rfl, rfl⟩

omit [DecidableEq D] in
/-- An event carries at most one range. -/
theorem Carries.unique {otherOwner : Address} {other : ValueRange}
    (carries : backend.Carries event owner value)
    (carries_other : backend.Carries event otherOwner other) :
    otherOwner = owner ∧ other = value := by
  cases carries with
  | faucet positive loaded size_eq fits =>
      cases carries_other with
      | faucet _ other_loaded other_size_eq _ =>
          have same_begin := Except.ok.inj (loaded.symm.trans other_loaded)
          refine ⟨rfl, ValueRange.ext ?_ ?_⟩ <;> omega
  | registerGenesisValue fits =>
      cases carries_other with
      | registerGenesisValue _ => exact ⟨rfl, rfl⟩

/-- An event that carries a range to the store writes its row. -/
theorem Carries.genesisAllocations (carries : backend.Carries event owner value) :
    (backend.handle event).genesisAllocations =
      (backend.saveGenesisAllocation owner value).genesisAllocations := by
  cases carries with
  | @faucet dataDir _ amount _ positive loaded size_eq fits =>
      have minted : (backend.faucetStateFiles dataDir).nextFaucetRange amount = .ok (value, _) :=
        FaucetStateFile.nextFaucetRange_eq_ok_iff.mpr ⟨loaded, size_eq, rfl⟩
      have started : ¬ (none : Option FaucetStop) = some .beforeFaucetState := by
        simp only [reduceCtorEq, not_false_eq_true]
      have after_eq : (backend.faucet dataDir owner amount none).2 =
          ({ backend with
            faucetStateFiles := Function.update backend.faucetStateFiles dataDir
              (FaucetStateFile.save (value.valueEnd + 1))
              }.registerGenesisValue dataDir owner value none).2 := by
        simp only [FaucetBackend.faucet, if_neg (not_le.mpr positive), if_neg started, minted]
      apply (congrArg FaucetBackend.genesisAllocations after_eq).trans
      refine (registerGenesisValue_spec.2.trans (if_pos ⟨rfl, fits⟩)).trans ?_
      exact genesisAllocations_save_congr rfl
  | registerGenesisValue fits =>
      exact registerGenesisValue_spec.2.trans (if_pos ⟨rfl, fits⟩)

theorem genesisAllocations_handle_of_not_carries
    (not_carries : ∀ owner value, ¬ backend.Carries event owner value) :
    (backend.handle event).genesisAllocations = backend.genesisAllocations := by
  cases event with
  | faucet dataDir owner amount stop =>
      rcases backend.faucet_cases dataDir owner amount stop with unchanged | minting
      · exact congrArg FaucetBackend.genesisAllocations unchanged
      · obtain ⟨value, file, positive, _, minted, after_eq⟩ := minting
        obtain ⟨loaded, size_eq, _⟩ := FaucetStateFile.nextFaucetRange_eq_ok_iff.mp minted
        apply (congrArg FaucetBackend.genesisAllocations after_eq).trans
        apply registerGenesisValue_spec.2.trans
        apply if_neg
        rintro ⟨rfl, fits⟩
        exact not_carries owner value (.faucet positive loaded size_eq fits)
  | registerGenesisValue dataDir owner value stop =>
      refine registerGenesisValue_spec.2.trans (if_neg ?_)
      rintro ⟨rfl, fits⟩
      exact not_carries owner value (.registerGenesisValue fits)
  | damage dataDir file => rfl

end Calls

/-! ## Disjoint allocations -/

section Disjoint

variable {backend : FaucetBackend D} {owner : Address} {value : ValueRange}

omit [DecidableEq D] in
theorem mem_saveGenesisAllocation (row : Address × ValueRange) :
    row ∈ (backend.saveGenesisAllocation owner value).genesisAllocations ↔
      row ∈ backend.genesisAllocations ∨ row = (owner, value) := by
  rw [saveGenesisAllocation]
  split_ifs with present
  · constructor
    · exact .inl
    · rintro (member | rfl)
      · exact member
      · exact present
  · simp only [List.mem_append, List.mem_singleton]

omit [DecidableEq D] in
/-- Writing a row keeps the allocations disjoint exactly when its range is free. -/
theorem AllocationsDisjoint.save_iff (disjoint : backend.AllocationsDisjoint) :
    (backend.saveGenesisAllocation owner value).AllocationsDisjoint ↔
      backend.RangeFree owner value := by
  constructor
  · intro after row member
    by_contra taken
    obtain ⟨differs, meets⟩ := not_or.mp taken
    rw [Bool.not_eq_false, ValueRange.intersects_iff_exists] at meets
    obtain ⟨atom, inside, inside_value⟩ := meets
    refine differs (after atom row ?_ (owner, value) ?_ inside inside_value)
    · exact (mem_saveGenesisAllocation row).mpr (.inl member)
    · exact (mem_saveGenesisAllocation (owner, value)).mpr (.inr rfl)
  · intro free atom first first_mem second second_mem inside inside_second
    have shares : ∀ row ∈ backend.genesisAllocations, row.2.containsValue atom = true →
        value.containsValue atom = true → row = (owner, value) := by
      intro row member inside_row inside_value
      apply (free row member).resolve_right
      rw [Bool.not_eq_false, ValueRange.intersects_iff_exists]
      exact ⟨atom, inside_row, inside_value⟩
    rw [mem_saveGenesisAllocation] at first_mem second_mem
    rcases first_mem with first_mem | rfl
    · rcases second_mem with second_mem | rfl
      · exact disjoint atom first first_mem second second_mem inside inside_second
      · exact shares first first_mem inside inside_second
    · rcases second_mem with second_mem | rfl
      · exact (shares second second_mem inside_second inside).symm
      · rfl

theorem AllocationsDisjoint.handle_iff (disjoint : backend.AllocationsDisjoint)
    (event : FaucetEvent D) :
    (backend.handle event).AllocationsDisjoint ↔ backend.EventFree event := by
  have disjoint_congr : ∀ {left right : FaucetBackend D},
      left.genesisAllocations = right.genesisAllocations →
        (left.AllocationsDisjoint ↔ right.AllocationsDisjoint) := by
    intro left right same
    simp only [AllocationsDisjoint, same]
  by_cases carries : ∃ owner value, backend.Carries event owner value
  · obtain ⟨owner, value, carries⟩ := carries
    rw [disjoint_congr carries.genesisAllocations, disjoint.save_iff]
    constructor
    · intro free otherOwner other carries_other
      obtain ⟨rfl, rfl⟩ := carries.unique carries_other
      exact free
    · intro free
      exact free owner value carries
  · push Not at carries
    rw [disjoint_congr (genesisAllocations_handle_of_not_carries carries)]
    exact iff_of_true disjoint fun owner value carried => absurd carried (carries owner value)

omit [DecidableEq D] in
/-- The listing groups the rows by their owner. -/
theorem mem_listGenesisAllocations :
    value ∈ (backend.listGenesisAllocations.get? owner).getD [] ↔
      (owner, value) ∈ backend.genesisAllocations := by
  have grouped_iff : ∀ (rows : List (Address × ValueRange))
      (grouped : OrderedDict Address (List ValueRange)),
      value ∈ ((rows.foldl (fun grouped row =>
        grouped.set row.1 ((grouped.get? row.1).getD [] ++ [row.2])) grouped).get? owner).getD [] ↔
        value ∈ (grouped.get? owner).getD [] ∨ (owner, value) ∈ rows := by
    intro rows
    induction rows with
    | nil => simp
    | cons row rows induction =>
        intro grouped
        rw [List.foldl_cons, induction, List.mem_cons, ← or_assoc]
        apply or_congr_left
        by_cases same : row.1 = owner
        · subst same
          simp [Prod.ext_iff]
        · rw [OrderedDict.get?_set_of_ne _ same]
          simp [Prod.ext_iff, Ne.symm same]
  rw [listGenesisAllocations, grouped_iff, List.mem_insertionSort, OrderedDict.get?_empty]
  exact or_iff_right List.not_mem_nil

omit [DecidableEq D] in
/-- Disjoint allocations give every atom at most one range in the context of the validator. -/
theorem AllocationsDisjoint.listed (disjoint : backend.AllocationsDisjoint) {atom : ℕ}
    {otherOwner : Address} {other : ValueRange}
    (listed : value ∈ (backend.listGenesisAllocations.get? owner).getD [])
    (other_listed : other ∈ (backend.listGenesisAllocations.get? otherOwner).getD [])
    (inside : value.containsValue atom = true) (inside_other : other.containsValue atom = true) :
    owner = otherOwner ∧ value = other :=
  Prod.mk.inj (disjoint atom _ (mem_listGenesisAllocations.mp listed) _
    (mem_listGenesisAllocations.mp other_listed) inside inside_other)

end Disjoint

/-! ## Runs -/

/-- The faucet is called on the wallets of one data directory, no file of which is damaged, and
nothing else is registered. -/
def UsesDataDir (dataDir : D) : FaucetEvent D → Prop
  | .faucet other _ _ _ => other = dataDir
  | .registerGenesisValue _ _ _ _ => False
  | .damage other _ => other ≠ dataDir

/-- The file of the data directory points behind every allocation. -/
def PointsBehind (backend : FaucetBackend D) (dataDir : D) : Prop :=
  ∃ next : ℤ, (backend.faucetStateFiles dataDir).load = .ok next ∧
    ∀ row ∈ backend.genesisAllocations, (row.2.valueEnd : ℤ) < next

section Runs

variable {backend : FaucetBackend D} {dataDir : D} {event : FaucetEvent D}

omit [DecidableEq D] in
theorem PointsBehind.eventFree (behind : backend.PointsBehind dataDir)
    (uses : UsesDataDir dataDir event) : backend.EventFree event := by
  obtain ⟨next, loaded, below⟩ := behind
  intro owner value carries row member
  cases carries with
  | faucet positive other_loaded size_eq fits =>
      obtain rfl : _ = dataDir := uses
      have next_eq := Except.ok.inj (loaded.symm.trans other_loaded)
      have row_below := below row member
      refine .inr ?_
      rw [← Bool.not_eq_true, ValueRange.intersects_iff]
      omega
  | registerGenesisValue fits => exact uses.elim

theorem PointsBehind.handle (behind : backend.PointsBehind dataDir)
    (uses : UsesDataDir dataDir event) : (backend.handle event).PointsBehind dataDir := by
  cases event with
  | faucet other owner amount stop =>
      obtain rfl : other = dataDir := uses
      rcases backend.faucet_cases other owner amount stop with unchanged | minting
      · have after_eq : backend.handle (.faucet other owner amount stop) = backend := unchanged
        rwa [after_eq]
      · obtain ⟨value, file, positive, _, minted, after_eq⟩ := minting
        obtain ⟨loaded, size_eq, rfl⟩ := FaucetStateFile.nextFaucetRange_eq_ok_iff.mp minted
        obtain ⟨next, behind_loaded, below⟩ := behind
        have next_eq := Except.ok.inj (behind_loaded.symm.trans loaded)
        refine ⟨value.valueEnd + 1, ?_, ?_⟩
        · simp only [FaucetBackend.handle, after_eq, registerGenesisValue_spec.1,
            Function.update_self]
          exact FaucetStateFile.load_save (by omega)
        · simp only [FaucetBackend.handle, after_eq, registerGenesisValue_spec.2]
          intro row member
          have row_cases : row ∈ backend.genesisAllocations ∨ row = (owner, value) := by
            split_ifs at member
            · have saved := (mem_saveGenesisAllocation row).mp member
              exact saved
            · exact .inl member
          rcases row_cases with earlier | rfl
          · have row_below := below row earlier
            omega
          · exact Int.lt_succ _
  | registerGenesisValue other owner value stop => exact uses.elim
  | damage other file =>
      obtain ⟨next, loaded, below⟩ := behind
      have untouched : (backend.handle (.damage other file)).faucetStateFiles dataDir =
          backend.faucetStateFiles dataDir := Function.update_of_ne (Ne.symm uses) _ _
      exact ⟨next, by rw [untouched, loaded], below⟩

theorem along_eventFree_of_usesDataDir {events : List (FaucetEvent D)}
    (uses : Runs.Along handle (fun _ event => UsesDataDir dataDir event) new events) :
    Runs.Along handle EventFree new events := by
  have initially : (new : FaucetBackend D).PointsBehind dataDir :=
    ⟨0, rfl, List.forall_mem_nil _⟩
  exact uses.imp (fun _ _ => PointsBehind.handle) (fun _ _ => PointsBehind.eventFree) initially

end Runs

/-- In every run of faucet and registration calls of the engines of a backend, with interruptions
and damaged files anywhere, the allocations are disjoint in every state reached exactly when every
range that a call carries to the store is free there. -/
theorem allocationsDisjoint_iff (events : List (FaucetEvent D)) :
    (∀ earlier, earlier <+: events → (earlier.foldl handle new).AllocationsDisjoint) ↔
      Runs.Along handle EventFree new events := by
  have initially : (new : FaucetBackend D).AllocationsDisjoint := by
    intro atom first first_mem
    cases first_mem
  have kept : ∀ (backend : FaucetBackend D) (event : FaucetEvent D),
      backend.AllocationsDisjoint → True → backend.EventFree event →
        (backend.handle event).AllocationsDisjoint := by
    intro backend event disjoint _ free
    exact (disjoint.handle_iff event).mpr free
  have free_of_disjoint : ∀ (backend : FaucetBackend D) (event : FaucetEvent D),
      backend.AllocationsDisjoint → True → (backend.handle event).AllocationsDisjoint →
        backend.EventFree event := by
    intro backend event disjoint _ later
    exact (disjoint.handle_iff event).mp later
  exact (Runs.along_iff_always kept (fun _ disjoint => disjoint) free_of_disjoint
    (Runs.along_of_forall (fun _ _ => trivial) _ _) initially).symm

section Examples

open SymbolicDigest

/-- Alice and Bob use data directories of their own on one backend. -/
def twoDataDirs : List (FaucetEvent ℕ) :=
  [.faucet 0 alice 10 none, .faucet 1 bob 10 none]

/-- Both faucets mint the values 0 to 9. -/
theorem not_allocationsDisjoint_twoDataDirs :
    ¬ (twoDataDirs.foldl handle new).AllocationsDisjoint := by
  have rows : (twoDataDirs.foldl handle new).genesisAllocations =
      [(alice, ⟨0, 9, Nat.zero_le 9⟩), (bob, ⟨0, 9, Nat.zero_le 9⟩)] := rfl
  intro disjoint
  rw [AllocationsDisjoint, rows] at disjoint
  have same := disjoint 0 _ List.mem_cons_self _ (List.mem_cons_of_mem _ List.mem_cons_self) rfl rfl
  have alice_ne : alice ≠ bob := by decide
  exact alice_ne (congrArg Prod.fst same)

end Examples

end FaucetBackend

end EZChain
