import EZChain.Library.Runs

/-!
# Interleaved programs

Handlers that share a state run side by side: each is a program of single operations, and a
schedule says whose operation comes next.  Two runs of a schedule, one of them without some of the
messages, stay related if every operation of the common handlers keeps the relation and every
operation of the other handlers changes nothing that it speaks of.
-/

/-- A program that performs operations on a shared state, one after another. -/
inductive Program (Op : Type → Type) (α : Type) : Type 1 where
  | done (result : α)
  | perform {β : Type} (operation : Op β) (next : β → Program Op α)

namespace Program

variable {Op : Type → Type} {α β : Type}

/-- Continue with the result of a program. -/
def bind : Program Op α → (α → Program Op β) → Program Op β
  | .done result, following => following result
  | .perform operation next, following =>
      .perform operation fun result => (next result).bind following

instance instMonad : Monad (Program Op) where
  pure := done
  bind := bind

end Program

/-- A program that may raise an error. -/
abbrev Handler (Op : Type → Type) (α : Type) : Type 1 := ExceptT String (Program Op) α

namespace Handler

variable {Op : Type → Type} {α : Type}

/-- Perform one operation. -/
def perform (operation : Op α) : Handler Op α :=
  ExceptT.mk (.perform operation fun result => .done (.ok result))

/-- Perform one operation that may raise. -/
def performOk (operation : Op (Except String α)) : Handler Op α :=
  ExceptT.mk (.perform operation .done)

/-- Pass over an error. -/
def attempt (handler : Handler Op α) : Handler Op (Option α) :=
  ExceptT.mk (Program.bind handler.run fun result => .done (.ok result.toOption))

end Handler

namespace Threads

variable (Op : Type → Type) (μ ρ σ ι : Type)

/-- The program that handles a message, as far as it has not run. -/
structure Thread where
  /-- The message that the thread handles. -/
  message : μ
  /-- What the thread has left to do. -/
  program : Program Op ρ

/-- A shared state and the threads that were started, with a gap for a message that was lost. -/
structure State where
  /-- The state that the threads share. -/
  shared : σ
  /-- The running threads. -/
  threads : List (Option (Thread Op μ ρ))

/-- One step of a schedule. -/
inductive Event where
  | deliver (message : μ)
  /-- A message gets lost, and nobody handles it. -/
  | lose
  /-- The thread of an earlier message performs its next operation on an input. -/
  | resume (index : ℕ) (input : ι)

variable {Op μ ρ σ ι}

/-- The schedule in which the given messages get lost. -/
def without (lost : μ → Prop) [DecidablePred lost] (events : List (Event μ ι)) :
    List (Event μ ι) :=
  events.map fun
    | .deliver message => if lost message then .lose else .deliver message
    | .lose => .lose
    | .resume index input => .resume index input

variable (handle : μ → Program Op ρ) (exec : ∀ {β : Type}, μ → Op β → ι → σ → β × σ)

/-- A thread performs its next operation, if it has not run to its end. -/
def resume (input : ι) (index : ℕ) (state : State Op μ ρ σ) : State Op μ ρ σ :=
  match state.threads[index]? with
  | some (some ⟨message, .perform operation next⟩) =>
      let performed := exec message operation input state.shared
      ⟨performed.2, state.threads.set index (some ⟨message, next performed.1⟩)⟩
  | _ => state

def step (state : State Op μ ρ σ) : Event μ ι → State Op μ ρ σ
  | .deliver message => { state with threads := state.threads ++ [some ⟨message, handle message⟩] }
  | .lose => { state with threads := state.threads ++ [none] }
  | .resume index input => resume exec input index state

section Conditions

variable (condition : ∀ {β : Type}, μ → Op β → ι → σ → Prop)

/-- The next operation of a thread, if it has one, meets a condition. -/
def NextMeets (input : ι) (shared : σ) : Option (Option (Thread Op μ ρ)) → Prop
  | some (some ⟨message, .perform operation _⟩) => condition message operation input shared
  | some (some ⟨_, .done _⟩) => True
  | some none => True
  | none => True

/-- The operation that an event performs meets a condition. -/
def Performs (state : State Op μ ρ σ) : Event μ ι → Prop
  | .deliver _ => True
  | .lose => True
  | .resume index input => NextMeets condition input state.shared state.threads[index]?

variable [∀ (β : Type) (message : μ) (operation : Op β) (input : ι) (shared : σ),
  Decidable (condition message operation input shared)]

instance instDecidableNextMeets (input : ι) (shared : σ) :
    ∀ thread : Option (Option (Thread Op μ ρ)), Decidable (NextMeets condition input shared thread)
  | some (some ⟨message, .perform operation _⟩) =>
      inferInstanceAs (Decidable (condition message operation input shared))
  | some (some ⟨_, .done _⟩) => isTrue trivial
  | some none => isTrue trivial
  | none => isTrue trivial

instance instDecidablePerforms (state : State Op μ ρ σ) :
    ∀ event, Decidable (Performs condition state event)
  | .deliver _ => isTrue trivial
  | .lose => isTrue trivial
  | .resume index input =>
      inferInstanceAs (Decidable (NextMeets condition input state.shared state.threads[index]?))

end Conditions

/-! ## Two runs of a schedule -/

section TwoRuns

variable (lost : μ → Prop) [DecidablePred lost]

/-- A thread of the run without the lost messages. -/
def keptThread (thread : Option (Thread Op μ ρ)) : Option (Thread Op μ ρ) :=
  thread.filter fun thread => ¬ lost thread.message

/-- Two runs have come to related states, and run the same programs for the common messages. -/
structure Alongside (rel : σ → σ → Prop) (left right : State Op μ ρ σ) : Prop where
  shared : rel left.shared right.shared
  threads : right.threads = left.threads.map (keptThread lost)

variable {lost} {handle exec} {rel : σ → σ → Prop}
  {condition : ∀ {β : Type}, μ → Op β → ι → σ → Prop}
  {left right : State Op μ ρ σ}

theorem keptThread_of_lost {thread : Thread Op μ ρ}
    (is_lost : lost thread.message) : keptThread lost (some thread) = none := by
  simp [keptThread, is_lost]

theorem keptThread_of_common {thread : Thread Op μ ρ}
    (common : ¬ lost thread.message) : keptThread lost (some thread) = some thread := by
  simp [keptThread, common]

/-- A common operation does the same in both runs, and an operation for a lost message stays within
the relation. -/
structure Respects (exec : ∀ {β : Type}, μ → Op β → ι → σ → β × σ) (lost : μ → Prop)
    (rel : σ → σ → Prop) (condition : ∀ {β : Type}, μ → Op β → ι → σ → Prop) : Prop where
  common : ∀ {β : Type} {message : μ} {operation : Op β} {input : ι} {before other : σ},
    ¬ lost message → rel before other → condition message operation input before →
      (exec message operation input before).1 = (exec message operation input other).1 ∧
        rel (exec message operation input before).2 (exec message operation input other).2
  own : ∀ {β : Type} {message : μ} {operation : Op β} {input : ι} {before other : σ},
    lost message → rel before other → condition message operation input before →
      rel (exec message operation input before).2 other

theorem resume_of_performs {state : State Op μ ρ σ} {index : ℕ} {input : ι} {message : μ} {β : Type}
    {operation : Op β} {next : β → Program Op ρ}
    (found : state.threads[index]? = some (some ⟨message, .perform operation next⟩)) :
    resume exec input index state =
      ⟨(exec message operation input state.shared).2, state.threads.set index
        (some ⟨message, next (exec message operation input state.shared).1⟩)⟩ := by
  simp only [resume, found]

theorem resume_of_not_performs {state : State Op μ ρ σ} {index : ℕ} {input : ι}
    (idle : ∀ (message : μ) (β : Type) (operation : Op β) (next : β → Program Op ρ),
      state.threads[index]? ≠ some (some ⟨message, .perform operation next⟩)) :
    resume exec input index state = state := by
  rw [resume]
  split
  · next message β operation next found => exact absurd found (idle message β operation next)
  · rfl

theorem Alongside.resume (respects : Respects exec lost rel condition)
    (alongside : Alongside lost rel left right) {index : ℕ} {input : ι}
    (met : Performs condition left (.resume index input)) :
    Alongside lost rel (resume exec input index left) (resume exec input index right) := by
  obtain ⟨related, kept_eq⟩ := alongside
  have found_kept : right.threads[index]? = left.threads[index]?.map (keptThread lost) := by
    rw [kept_eq, List.getElem?_map]
  by_cases performs : ∃ (message : μ) (β : Type) (operation : Op β) (next : β → Program Op ρ),
      left.threads[index]? = some (some ⟨message, .perform operation next⟩)
  · obtain ⟨message, β, operation, next, found⟩ := performs
    simp only [Performs, found, NextMeets] at met
    rw [resume_of_performs found]
    rw [found, Option.map_some] at found_kept
    by_cases is_lost : lost message
    · rw [keptThread_of_lost is_lost] at found_kept
      have right_idle : Threads.resume exec input index right = right := by
        apply resume_of_not_performs
        intro _ _ _ _ found_other
        rw [found_kept] at found_other
        cases found_other
      rw [right_idle]
      refine ⟨respects.own is_lost related met, ?_⟩
      obtain ⟨bound, gap⟩ := List.getElem?_eq_some_iff.mp found_kept
      calc right.threads = right.threads.set index right.threads[index] :=
            (List.set_getElem_self bound).symm
        _ = _ := by rw [gap, List.map_set, kept_eq, keptThread_of_lost is_lost]
    · rw [keptThread_of_common is_lost] at found_kept
      rw [resume_of_performs found_kept]
      obtain ⟨same_result, still_related⟩ := respects.common is_lost related met
      refine ⟨still_related, ?_⟩
      change right.threads.set index _ = (left.threads.set index _).map (keptThread lost)
      rw [List.map_set, keptThread_of_common is_lost, kept_eq, same_result]
  · have left_idle : Threads.resume exec input index left = left :=
      resume_of_not_performs fun message β operation next found =>
        performs ⟨message, β, operation, next, found⟩
    have right_idle : Threads.resume exec input index right = right := by
      apply resume_of_not_performs
      intro message β operation next found
      rw [found_kept, Option.map_eq_some_iff] at found
      obtain ⟨thread, found_left, kept⟩ := found
      cases thread with
      | none => cases kept
      | some thread =>
          by_cases is_lost : lost thread.message
          · rw [keptThread_of_lost is_lost] at kept
            cases kept
          · rw [keptThread_of_common is_lost, Option.some.injEq] at kept
            exact performs ⟨message, β, operation, next, kept ▸ found_left⟩
    rw [left_idle, right_idle]
    exact ⟨related, kept_eq⟩

theorem Alongside.step (respects : Respects exec lost rel condition)
    (alongside : Alongside lost rel left right) (event : Event μ ι)
    (met : Performs condition left event) :
    Alongside lost rel (step handle exec left event)
      ((without lost [event]).foldl (step handle exec) right) := by
  cases event with
  | deliver message =>
      obtain ⟨related, threads_eq⟩ := alongside
      by_cases is_lost : lost message
      · simp only [without, List.map_cons, List.map_nil, if_pos is_lost, List.foldl_cons,
          List.foldl_nil, Threads.step]
        refine ⟨related, ?_⟩
        rw [threads_eq, List.map_append, List.map_singleton, keptThread_of_lost is_lost]
      · simp only [without, List.map_cons, List.map_nil, if_neg is_lost, List.foldl_cons,
          List.foldl_nil, Threads.step]
        refine ⟨related, ?_⟩
        rw [threads_eq, List.map_append, List.map_singleton, keptThread_of_common is_lost]
  | lose =>
      obtain ⟨related, threads_eq⟩ := alongside
      refine ⟨related, ?_⟩
      simp only [without, List.map_cons, List.map_nil, List.foldl_cons, List.foldl_nil,
        Threads.step]
      rw [threads_eq, List.map_append]
      rfl
  | resume index input => exact alongside.resume respects met

/-- Two runs stay related as long as every operation of the run with all messages meets the
condition. -/
theorem Alongside.run (respects : Respects exec lost rel condition) (events : List (Event μ ι))
    (along : Runs.Along (Threads.step handle exec) (Performs condition) left events)
    (alongside : Alongside lost rel left right) :
    Alongside lost rel (events.foldl (Threads.step handle exec) left)
      ((without lost events).foldl (Threads.step handle exec) right) := by
  induction events generalizing left right with
  | nil => exact alongside
  | cons event rest induction =>
      obtain ⟨met, rest_along⟩ := along
      exact induction rest_along (alongside.step respects event met)

end TwoRuns

end Threads
