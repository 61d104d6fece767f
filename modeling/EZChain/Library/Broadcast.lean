import Mathlib.Data.List.Induction
import Mathlib.Data.List.ProdSigma
import Mathlib.Logic.Function.Basic

/-!
# Participants called in turn

Every participant holds a state, and a method of a participant changes its own state, also when it
raises.  One loop collects the results of a method over some participants; the other one hands
items to participants and keeps the last result.  A participant may be listed more than once.
-/

namespace Broadcast

variable {ι σ ε α β γ : Type*} [DecidableEq ι]

/-- Call a method of each participant in turn. -/
def collect (method : σ → Except ε α × σ) (states : ι → σ) :
    List ι → Except ε (List α) × (ι → σ)
  | [] => (.ok [], states)
  | participant :: rest =>
      match method (states participant) with
      | (.error raised, next) => (.error raised, Function.update states participant next)
      | (.ok value, next) =>
          match collect method (Function.update states participant next) rest with
          | (.error raised, final) => (.error raised, final)
          | (.ok values, final) => (.ok (value :: values), final)

/-- Hand items to participants in turn; the last result is kept. -/
def deliver (method : β → σ → Except ε (Option γ) × σ) (states : ι → σ) :
    List (β × ι) → Option γ → Except ε (Option γ) × (ι → σ)
  | [], kept => (.ok kept, states)
  | (item, participant) :: rest, kept =>
      match method item (states participant) with
      | (.error raised, next) => (.error raised, Function.update states participant next)
      | (.ok result, next) =>
          deliver method (Function.update states participant next) rest (result.or kept)

/-! ## Collecting -/

section Collect

variable {method : σ → Except ε α × σ} (invariant : ι → σ → Prop) {value : ι → α}

/-- A method that returns and keeps an invariant is collected from all participants. -/
theorem collect_of_returns
    (returns : ∀ participant state, invariant participant state →
      ∃ next, method state = (.ok (value participant), next) ∧ invariant participant next)
    {states : ι → σ} (initially : ∀ participant, invariant participant (states participant))
    (participants : List ι) :
    ∃ final, collect method states participants = (.ok (participants.map value), final) ∧
      ∀ participant, invariant participant (final participant) := by
  induction participants generalizing states with
  | nil => exact ⟨states, rfl, initially⟩
  | cons participant rest induction =>
      obtain ⟨next, returned, kept⟩ := returns participant _ (initially participant)
      have later : ∀ other, invariant other (Function.update states participant next other) := by
        intro other
        by_cases same : other = participant
        · subst same
          rwa [Function.update_self]
        · rw [Function.update_of_ne same]
          exact initially other
      obtain ⟨final, collected, holds⟩ := induction later
      refine ⟨final, ?_, holds⟩
      simp only [collect, returned, collected, List.map_cons]

/-- A method that returns once is collected from participants that are listed once. -/
theorem collect_once {fresh called : ι → σ → Prop}
    (returns : ∀ participant state, fresh participant state →
      ∃ next, method state = (.ok (value participant), next) ∧ called participant next)
    {states : ι → σ} {participants : List ι} (nodup : participants.Nodup)
    (initially : ∀ participant ∈ participants, fresh participant (states participant)) :
    ∃ final, collect method states participants = (.ok (participants.map value), final) ∧
      (∀ participant ∈ participants, called participant (final participant)) ∧
      ∀ participant ∉ participants, final participant = states participant := by
  induction participants generalizing states with
  | nil => exact ⟨states, rfl, fun _ mem => absurd mem List.not_mem_nil, fun _ _ => rfl⟩
  | cons participant rest induction =>
      obtain ⟨unlisted, rest_nodup⟩ := List.nodup_cons.mp nodup
      obtain ⟨next, returned, holds⟩ :=
        returns participant _ (initially participant List.mem_cons_self)
      have rest_fresh : ∀ other ∈ rest,
          fresh other (Function.update states participant next other) := by
        intro other mem
        have other_ne : other ≠ participant := ne_of_mem_of_not_mem mem unlisted
        rw [Function.update_of_ne other_ne]
        exact initially other (List.mem_cons_of_mem participant mem)
      obtain ⟨final, collected, rest_called, others⟩ := induction rest_nodup rest_fresh
      refine ⟨final, ?_, fun other mem => ?_, fun other absent => ?_⟩
      · simp only [collect, returned, collected, List.map_cons]
      · rcases List.mem_cons.mp mem with rfl | mem
        · rw [others other unlisted, Function.update_self]
          exact holds
        · exact rest_called other mem
      · obtain ⟨other_ne, absent⟩ := not_or.mp (mt List.mem_cons.mpr absent)
        rw [others other absent, Function.update_of_ne other_ne]

/-- A listed participant that raises stops the collecting, when no other one raises anything
else. -/
theorem collect_raises {raised : ε}
    (outcomes : ∀ state, (∃ next, method state = (.error raised, next)) ∨
      ∃ value next, method state = (.ok value, next))
    {states : ι → σ} {participants : List ι} {participant : ι}
    (listed : participant ∈ participants)
    (raises : ∃ next, method (states participant) = (.error raised, next)) :
    ∃ final, collect method states participants = (.error raised, final) := by
  induction participants generalizing states with
  | nil => exact absurd listed List.not_mem_nil
  | cons head rest induction =>
      rcases outcomes (states head) with ⟨next, fails⟩ | ⟨value, next, returned⟩
      · exact ⟨Function.update states head next, by simp only [collect, fails]⟩
      · have head_ne : participant ≠ head := by
          rintro rfl
          obtain ⟨_, fails⟩ := raises
          rw [returned] at fails
          cases fails
        rw [← Function.update_of_ne head_ne next states] at raises
        obtain ⟨final, fails⟩ :=
          induction ((List.mem_cons.mp listed).resolve_left head_ne) raises
        exact ⟨final, by simp only [collect, returned, fails]⟩

end Collect

/-! ## Delivering -/

section Deliver

variable {method : β → σ → Except ε (Option γ) × σ}

theorem deliver_append (states : ι → σ) (left right : List (β × ι)) (kept : Option γ) :
    deliver method states (left ++ right) kept =
      match deliver method states left kept with
      | (.error raised, final) => (.error raised, final)
      | (.ok result, final) => deliver method final right result := by
  induction left generalizing states kept with
  | nil => rfl
  | cons delivery rest induction =>
      obtain ⟨item, participant⟩ := delivery
      simp only [List.cons_append, deliver]
      rcases method item (states participant) with ⟨_ | result, next⟩
      · rfl
      · exact induction _ _

/-- The items that a participant is handed. -/
def handed (participant : ι) (deliveries : List (β × ι)) : List β :=
  (deliveries.filter fun delivery => delivery.2 = participant).map Prod.fst

theorem handed_concat_self (participant : ι) (deliveries : List (β × ι)) (item : β) :
    handed participant (deliveries ++ [(item, participant)]) =
      handed participant deliveries ++ [item] := by
  simp [handed]

theorem handed_concat_of_ne {participant other : ι} (other_ne : other ≠ participant)
    (deliveries : List (β × ι)) (item : β) :
    handed participant (deliveries ++ [(item, other)]) = handed participant deliveries := by
  simp [handed, other_ne]

variable (allowed : β → Prop) (invariant : ι → List β → σ → Prop)

/-- A method that returns on the allowed items and keeps an invariant about the items that the
participant was handed gets through all deliveries. -/
theorem deliver_of_returns
    (returns : ∀ participant items state item, invariant participant items state → allowed item →
      ∃ result next, method item state = (.ok result, next) ∧
        invariant participant (items ++ [item]) next)
    {states : ι → σ} {deliveries : List (β × ι)}
    (initially : ∀ delivery ∈ deliveries, invariant delivery.2 [] (states delivery.2))
    (all_allowed : ∀ delivery ∈ deliveries, allowed delivery.1) (kept : Option γ) :
    ∃ result final, deliver method states deliveries kept = (.ok result, final) ∧
      ∀ participant, invariant participant [] (states participant) →
        invariant participant (handed participant deliveries) (final participant) := by
  induction deliveries using List.reverseRecOn with
  | nil => exact ⟨kept, states, rfl, fun _ holds => holds⟩
  | append_singleton deliveries delivery induction =>
      obtain ⟨item, participant⟩ := delivery
      obtain ⟨earlier, middle, delivered, holds⟩ := induction
        (fun delivery mem => initially delivery (List.mem_append_left _ mem))
        (fun delivery mem => all_allowed delivery (List.mem_append_left _ mem))
      have last_mem : (item, participant) ∈ deliveries ++ [(item, participant)] := by simp
      obtain ⟨result, next, returned, next_holds⟩ := returns participant _ _ item
        (holds participant (initially _ last_mem)) (all_allowed _ last_mem)
      refine ⟨result.or earlier, Function.update middle participant next, ?_,
        fun other other_holds => ?_⟩
      · simp only [deliver_append, delivered, deliver, returned]
      · by_cases same : other = participant
        · subst same
          rwa [Function.update_self, handed_concat_self]
        · rw [Function.update_of_ne same, handed_concat_of_ne (Ne.symm same)]
          exact holds other other_holds

/-- The result of the last delivery is kept if there is one. -/
theorem deliver_concat {states middle : ι → σ} {deliveries : List (β × ι)} {kept earlier : Option γ}
    (delivered : deliver method states deliveries kept = (.ok earlier, middle)) {item : β}
    {participant : ι} {result : γ} {next : σ}
    (returned : method item (middle participant) = (.ok (some result), next)) :
    deliver method states (deliveries ++ [(item, participant)]) kept =
      (.ok (some result), Function.update middle participant next) := by
  simp only [deliver_append, delivered, deliver, returned, Option.some_or]

omit [DecidableEq ι] in
theorem exists_product_eq_concat {items : List β} {participants : List ι} (some_item : items ≠ [])
    (some_participant : participants ≠ []) :
    ∃ front item participant, items ×ˢ participants = front ++ [(item, participant)] ∧
      item ∈ items ∧ participant ∈ participants := by
  have nonempty : items ×ˢ participants ≠ [] := by
    obtain ⟨item, item_mem⟩ := List.exists_mem_of_ne_nil items some_item
    obtain ⟨participant, mem⟩ := List.exists_mem_of_ne_nil participants some_participant
    exact List.ne_nil_of_mem (List.mem_product.mpr ⟨item_mem, mem⟩)
  obtain ⟨front, ⟨item, participant⟩, split⟩ := List.eq_nil_or_concat _ |>.resolve_left nonempty
  have mem : (item, participant) ∈ items ×ˢ participants := by simp [split]
  exact ⟨front, item, participant, split.trans List.concat_eq_append,
    List.mem_product.mp mem⟩

/-- All participants get all items. -/
theorem mem_handed_product {items : List β} {participants : List ι} {participant : ι}
    (listed : participant ∈ participants) {item : β} (mem : item ∈ items) :
    item ∈ handed participant (items ×ˢ participants) := by
  simp [handed, mem, listed]

end Deliver

end Broadcast
