import Mathlib.Data.List.Forall2
import Mathlib.Tactic.Common

/-!
# Checked computations

Programs that stop at the first failed check are written in `Except`.  The lemmas here peel one
check, one fallible call or one absent value off a computation that is known to have succeeded.
-/

namespace Checks

variable {ε α β : Type}

/-- Stop with a message unless a condition holds. -/
def require (condition : Prop) [Decidable condition] (message : ε) : Except ε Unit :=
  if condition then .ok () else .error message

/-- Read an optional value, stopping with a message when it is absent. -/
def demand (value : Option α) (message : ε) : Except ε α :=
  match value with
  | none => .error message
  | some found => .ok found

@[simp]
theorem require_eq_ok {condition : Prop} [Decidable condition] {message : ε} {done : Unit} :
    require condition message = .ok done ↔ condition := by
  rw [require]
  split <;> simp_all

theorem require_of {condition : Prop} [Decidable condition] (holds : condition) (message : ε) :
    require condition message = .ok () :=
  if_pos holds

theorem map_require_pure {condition : Prop} [Decidable condition] {message : ε} {value : α}
    {convert : α → β} :
    (require condition message >>= fun _ => pure value).map convert =
      (require condition message >>= fun _ => pure (convert value)) := by
  rw [require]
  split <;> rfl

@[simp]
theorem demand_eq_ok {value : Option α} {message : ε} {found : α} :
    demand value message = .ok found ↔ value = some found := by
  cases value <;> simp [demand]

@[simp]
theorem bind_eq_ok {computation : Except ε α} {next : α → Except ε β} {result : β} :
    (computation >>= next) = .ok result ↔
      ∃ value, computation = .ok value ∧ next value = .ok result := by
  cases computation with
  | error message => simp [bind, Except.bind]
  | ok value => simp [bind, Except.bind]

theorem bind_eq_error {computation : Except ε α} {next : α → Except ε β} {message : ε} :
    (computation >>= next) = .error message ↔
      computation = .error message ∨ ∃ value, computation = .ok value ∧
        next value = .error message := by
  cases computation with
  | error other => simp [bind, Except.bind]
  | ok value => simp [bind, Except.bind]

@[simp]
theorem pure_eq_ok {value result : α} :
    (pure value : Except ε α) = .ok result ↔ value = result := by
  simp [pure, Except.pure]

/-- Nothing is asked of an absent value. -/
theorem forall_mem_none (property : α → Prop) : ∀ item ∈ (none : Option α), property item :=
  nofun

/-- A check has only one result. -/
theorem exists_unit {property : Unit → Prop} : (∃ done, property done) ↔ property () :=
  ⟨fun ⟨_, holds⟩ => holds, fun holds => ⟨(), holds⟩⟩

@[simp]
theorem mapError_eq_ok {δ : Type} {computation : Except ε α} {convert : ε → δ} {result : α} :
    computation.mapError convert = .ok result ↔ computation = .ok result := by
  cases computation <;> simp [Except.mapError]

theorem map_eq_ok {computation : Except ε α} {convert : α → β} {result : β} :
    computation.map convert = .ok result ↔
      ∃ value, computation = .ok value ∧ convert value = result := by
  cases computation <;> simp [Except.map]

/-- A loop of fallible calls succeeds when every call does. -/
theorem mapM_eq_ok {call : α → Except ε β} {items : List α} {results : List β} :
    items.mapM call = .ok results ↔
      List.Forall₂ (fun item result => call item = .ok result) items results := by
  induction items generalizing results with
  | nil =>
      rw [List.mapM_nil, pure_eq_ok]
      constructor
      · rintro rfl
        exact .nil
      · rintro ⟨⟩
        rfl
  | cons item items induction =>
      simp only [List.mapM_cons, bind_eq_ok, pure_eq_ok]
      constructor
      · rintro ⟨result, called, others, others_called, rfl⟩
        exact .cons called (induction.mp others_called)
      · intro all_called
        cases all_called with
        | cons called others_called =>
            exact ⟨_, called, _, induction.mpr others_called, rfl⟩

theorem optionMapM_eq_ok_some {call : α → Except ε β} {item : Option α} {result : β} :
    item.mapM call = .ok (some result) ↔ ∃ found, item = some found ∧ call found = .ok result := by
  cases item with
  | none => simp
  | some found =>
      rw [Option.mapM_some]
      cases called : call found <;> simp [called, Functor.map, Except.map]

/-- Every item is related to some result. -/
theorem exists_related {rel : α → β → Prop} {items : List α} {results : List β}
    (related : List.Forall₂ rel items results) {item : α} (member : item ∈ items) :
    ∃ result ∈ results, rel item result := by
  induction related with
  | nil => exact absurd member List.not_mem_nil
  | cons head tail induction =>
      rcases List.mem_cons.mp member with rfl | member
      · exact ⟨_, List.mem_cons_self, head⟩
      · obtain ⟨result, result_mem, holds⟩ := induction member
        exact ⟨result, List.mem_cons_of_mem _ result_mem, holds⟩

theorem exists_mem_of_mapM {call : α → Except ε β} {items : List α} {results : List β}
    (mapped : items.mapM call = .ok results) {item : α} (member : item ∈ items) :
    ∃ result ∈ results, call item = .ok result :=
  exists_related (mapM_eq_ok.mp mapped) member

theorem exists_mem_of_mapM_result {call : α → Except ε β} {items : List α} {results : List β}
    (mapped : items.mapM call = .ok results) {result : β} (member : result ∈ results) :
    ∃ item ∈ items, call item = .ok result :=
  exists_related (mapM_eq_ok.mp mapped).flip member

theorem exists_mapM_of_forall_mem {call : α → Except ε β} {items : List α}
    (all_called : ∀ item ∈ items, ∃ result, call item = .ok result) :
    ∃ results, items.mapM call = .ok results := by
  induction items with
  | nil => exact ⟨[], rfl⟩
  | cons item items induction =>
      obtain ⟨⟨result, called⟩, rest⟩ := List.forall_mem_cons.mp all_called
      obtain ⟨results, mapped⟩ := induction rest
      exact ⟨result :: results, mapM_eq_ok.mpr (.cons called (mapM_eq_ok.mp mapped))⟩

/-- Calls of another function have the same results exactly when they do one by one. -/
theorem forall₂_ok_iff {call other : α → Except ε β} {items : List α} {results : List β}
    (all_called : List.Forall₂ (fun item result => call item = .ok result) items results) :
    List.Forall₂ (fun item result => other item = .ok result) items results ↔
      ∀ item ∈ items, ∀ result, call item = .ok result → other item = .ok result := by
  induction all_called with
  | nil => exact iff_of_true .nil (List.forall_mem_nil _)
  | cons called _ induction =>
      rw [List.forall_mem_cons, ← induction]
      constructor
      · intro all_others
        cases all_others with
        | cons other_called rest =>
            refine ⟨fun result item_called => ?_, rest⟩
            rwa [← Except.ok.inj (called.symm.trans item_called)]
      · rintro ⟨first, rest⟩
        exact .cons (first _ called) rest

/-- On pairs that are related already, a second relation may be a property of the results. -/
theorem forall₂_iff_forall_mem {rel other : α → β → Prop} {property : β → Prop} {items : List α}
    {results : List β} (related : List.Forall₂ rel items results)
    (other_iff : ∀ item result, rel item result → (other item result ↔ property result)) :
    List.Forall₂ other items results ↔ ∀ result ∈ results, property result := by
  induction related with
  | nil => exact iff_of_true .nil (List.forall_mem_nil _)
  | cons first _ induction =>
      rw [List.forall_mem_cons, ← induction, ← other_iff _ _ first]
      constructor
      · intro all_others
        cases all_others with
        | cons other_first rest => exact ⟨other_first, rest⟩
      · rintro ⟨other_first, rest⟩
        exact .cons other_first rest

theorem forall₂_comp {γ : Type} {rel : α → β → Prop} {other : β → γ → Prop} {items : List α}
    {middles : List β} {results : List γ} (related : List.Forall₂ rel items middles)
    (other_related : List.Forall₂ other middles results) :
    List.Forall₂ (fun item result => ∃ middle, rel item middle ∧ other middle result) items
      results := by
  induction related generalizing results with
  | nil =>
      cases other_related
      exact .nil
  | cons first _ induction =>
      cases other_related with
      | cons other_first rest => exact .cons ⟨_, first, other_first⟩ (induction rest)

/-! ## Kinds of messages -/

section RaisesOnly

variable {kind : ε → Prop}

/-- A computation raises messages of one kind only. -/
def RaisesOnly (kind : ε → Prop) (computation : Except ε α) : Prop :=
  ∀ message, computation = .error message → kind message

theorem raisesOnly_require {condition : Prop} [Decidable condition] {message : ε}
    (allowed : kind message) : RaisesOnly kind (require condition message) := by
  intro raised raises
  rw [require] at raises
  split at raises <;> cases raises
  exact allowed

theorem raisesOnly_demand {value : Option α} {message : ε} (allowed : kind message) :
    RaisesOnly kind (demand value message) := by
  intro raised raises
  cases value <;> cases raises
  exact allowed

theorem raisesOnly_pure (value : α) : RaisesOnly kind (pure value : Except ε α) := by
  intro message raises
  cases raises

theorem RaisesOnly.bind {computation : Except ε α} {next : α → Except ε β}
    (first : RaisesOnly kind computation) (rest : ∀ value, RaisesOnly kind (next value)) :
    RaisesOnly kind (computation >>= next) := by
  intro message raises
  rcases bind_eq_error.mp raises with raised | ⟨value, -, raised⟩
  · exact first message raised
  · exact rest value message raised

theorem RaisesOnly.mapError {δ : Type} {others : δ → Prop} {computation : Except ε α}
    {convert : ε → δ} (first : RaisesOnly kind computation)
    (converts : ∀ message, kind message → others (convert message)) :
    RaisesOnly others (computation.mapError convert) := by
  intro message raises
  cases computation with
  | ok value => cases raises
  | error raised =>
      obtain rfl := Except.error.inj raises
      exact converts raised (first raised rfl)

end RaisesOnly

end Checks
