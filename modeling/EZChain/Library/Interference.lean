import EZChain.Library.Programs

/-!
# Programs among others

A program runs while others work on the same state: around each of its operations they perform
operations of their own.  What a program ensures is shown by rules, one for each way to build it.
The assertions between its operations have to be stable, since others may act at any time.
-/

/-- An operation that somebody performs on an input. -/
structure Performance (Op : Type → Type) (ι : Type) : Type 1 where
  {Result : Type}
  /-- The operation. -/
  operation : Op Result
  /-- What it takes from outside. -/
  input : ι

/-- A turn of the program, or of somebody else. -/
inductive Turn (Op : Type → Type) (ι : Type) : Type 1 where
  | own (input : ι)
  | other (performance : Performance Op ι)

namespace Program

variable {Op : Type → Type} {ι σ α β : Type} (exec : ∀ {γ : Type}, Op γ → ι → σ → γ × σ)

/-- The state after an operation. -/
def effect (shared : σ) (performance : Performance Op ι) : σ :=
  (exec performance.operation performance.input shared).2

/-- Run a program to its end: its result and the state, if it has exactly the turns it needs. -/
def run : Program Op α → List (Turn Op ι) → σ → Option (α × σ)
  | .done result, [], shared => some (result, shared)
  | .done _, .own _ :: _, _ => none
  | .done result, .other performance :: rest, shared =>
      run (.done result) rest (effect exec shared performance)
  | .perform _ _, [], _ => none
  | .perform operation next, .own input :: rest, shared =>
      run (next (exec operation input shared).1) rest (exec operation input shared).2
  | .perform operation next, .other performance :: rest, shared =>
      run (.perform operation next) rest (effect exec shared performance)

/-- All operations that are performed in a run, in their order. -/
def performances : Program Op α → List (Turn Op ι) → σ → List (Performance Op ι)
  | _, [], _ => []
  | .done _, .own _ :: _, _ => []
  | .done result, .other performance :: rest, shared =>
      performance :: performances (.done result) rest (effect exec shared performance)
  | .perform operation next, .own input :: rest, shared =>
      ⟨operation, input⟩ ::
        performances (next (exec operation input shared).1) rest (exec operation input shared).2
  | .perform operation next, .other performance :: rest, shared =>
      performance :: performances (.perform operation next) rest (effect exec shared performance)

/-- The operations that the program itself performs in a run. -/
def ownPerformances : Program Op α → List (Turn Op ι) → σ → List (Performance Op ι)
  | _, [], _ => []
  | .done _, .own _ :: _, _ => []
  | .done result, .other performance :: rest, shared =>
      ownPerformances (.done result) rest (effect exec shared performance)
  | .perform operation next, .own input :: rest, shared =>
      ⟨operation, input⟩ :: ownPerformances (next (exec operation input shared).1) rest
        (exec operation input shared).2
  | .perform operation next, .other performance :: rest, shared =>
      ownPerformances (.perform operation next) rest (effect exec shared performance)

variable {exec}

@[simp]
theorem run_other (program : Program Op α) (performance : Performance Op ι)
    (rest : List (Turn Op ι)) (shared : σ) :
    program.run exec (.other performance :: rest) shared =
      program.run exec rest (effect exec shared performance) := by
  cases program <;> rfl

@[simp]
theorem performances_other (program : Program Op α) (performance : Performance Op ι)
    (rest : List (Turn Op ι)) (shared : σ) :
    program.performances exec (.other performance :: rest) shared =
      performance :: program.performances exec rest (effect exec shared performance) := by
  cases program <;> rfl

@[simp]
theorem ownPerformances_other (program : Program Op α) (performance : Performance Op ι)
    (rest : List (Turn Op ι)) (shared : σ) :
    program.ownPerformances exec (.other performance :: rest) shared =
      program.ownPerformances exec rest (effect exec shared performance) := by
  cases program <;> rfl

@[simp]
theorem performances_nil (program : Program Op α) (shared : σ) :
    program.performances exec [] shared = [] := by
  cases program <;> rfl

/-- The state at the end of a run is what the performed operations make of the first one. -/
theorem eq_foldl_of_run {program : Program Op α} {turns : List (Turn Op ι)} {shared after : σ}
    {result : α} (ran : program.run exec turns shared = some (result, after)) :
    after = (program.performances exec turns shared).foldl (effect exec) shared := by
  induction turns generalizing program shared with
  | nil =>
      cases program with
      | done result => cases ran; rfl
      | perform operation next => cases ran
  | cons turn rest induction =>
      cases turn with
      | other performance =>
          rw [run_other] at ran
          rw [performances_other]
          exact induction ran
      | own input =>
          cases program with
          | done result => cases ran
          | perform operation next => exact @induction (next _) _ ran

/-- After a program has run, its continuation runs. -/
theorem run_bind_append {program : Program Op α} {following : α → Program Op β}
    {turns later : List (Turn Op ι)} {shared middle : σ} {result : α}
    (ran : program.run exec turns shared = some (result, middle)) :
    (program.bind following).run exec (turns ++ later) shared =
      (following result).run exec later middle := by
  induction turns generalizing program shared with
  | nil =>
      cases program with
      | done result => cases ran; rfl
      | perform operation next => cases ran
  | cons turn rest induction =>
      cases turn with
      | other performance =>
          rw [run_other] at ran
          rw [List.cons_append, run_other]
          exact induction ran
      | own input =>
          cases program with
          | done result => cases ran
          | perform operation next => exact @induction (next _) _ ran

/-- A run of a program and its continuation falls into a run of each. -/
theorem exists_of_run_bind {program : Program Op α} {following : α → Program Op β}
    {turns : List (Turn Op ι)} {shared after : σ} {result : β}
    (ran : (program.bind following).run exec turns shared = some (result, after)) :
    ∃ first later middle value, turns = first ++ later ∧
      program.run exec first shared = some (value, middle) ∧
      (following value).run exec later middle = some (result, after) ∧
      (program.bind following).ownPerformances exec turns shared =
        program.ownPerformances exec first shared ++
          (following value).ownPerformances exec later middle := by
  induction turns generalizing program shared with
  | nil =>
      cases program with
      | done value => exact ⟨[], [], shared, value, rfl, rfl, ran, rfl⟩
      | perform operation next => cases ran
  | cons turn rest induction =>
      cases turn with
      | other performance =>
          rw [run_other] at ran
          obtain ⟨first, later, middle, value, rfl, ran_first, ran_later, performed⟩ :=
            induction ran
          refine ⟨.other performance :: first, later, middle, value, rfl, ?_, ran_later, ?_⟩
          · rw [run_other, ran_first]
          · rw [ownPerformances_other, ownPerformances_other, performed]
      | own input =>
          cases program with
          | done value => exact ⟨[], .own input :: rest, shared, value, rfl, rfl, ran, rfl⟩
          | perform operation next =>
              obtain ⟨first, later, middle, value, rfl, ran_first, ran_later, performed⟩ :=
                @induction (next _) _ ran
              refine ⟨.own input :: first, later, middle, value, rfl, ran_first, ran_later, ?_⟩
              exact congrArg (List.cons _) performed

/-- What the program performs itself is performed. -/
theorem mem_performances_of_own {program : Program Op α} {turns : List (Turn Op ι)} {shared : σ}
    {performance : Performance Op ι}
    (member : performance ∈ program.ownPerformances exec turns shared) :
    performance ∈ program.performances exec turns shared := by
  induction turns generalizing program shared with
  | nil => cases program <;> cases member
  | cons turn rest induction =>
      cases turn with
      | other performed =>
          rw [ownPerformances_other] at member
          rw [performances_other]
          exact List.mem_cons_of_mem _ (induction member)
      | own input =>
          cases program with
          | done result => cases member
          | perform operation next =>
              rcases List.mem_cons.mp member with rfl | member
              · exact List.mem_cons_self
              · exact List.mem_cons_of_mem _ (@induction (next _) _ member)

/-- In a run to the end, what others do is performed. -/
theorem mem_performances_of_other {program : Program Op α} {turns : List (Turn Op ι)}
    {shared after : σ} {result : α} (ran : program.run exec turns shared = some (result, after))
    {performance : Performance Op ι} (member : .other performance ∈ turns) :
    performance ∈ program.performances exec turns shared := by
  induction turns generalizing program shared with
  | nil => cases member
  | cons turn rest induction =>
      cases turn with
      | other performed =>
          rw [run_other] at ran
          rw [performances_other]
          rcases List.mem_cons.mp member with equality | member
          · cases equality
            exact List.mem_cons_self
          · exact List.mem_cons_of_mem _ (induction ran member)
      | own input =>
          cases program with
          | done result => cases ran
          | perform operation next =>
              rcases List.mem_cons.mp member with equality | member
              · cases equality
              · exact List.mem_cons_of_mem _ (@induction (next _) _ ran member)

theorem run_done {result other : α} {turns : List (Turn Op ι)} {shared after : σ}
    (ran : (done result).run exec turns shared = some (other, after)) : other = result := by
  induction turns generalizing shared with
  | nil =>
      cases ran
      rfl
  | cons turn rest induction =>
      cases turn with
      | own input => cases ran
      | other performance => exact induction (run_other (done result) _ _ _ ▸ ran)

/-! ## What a program returns -/

/-- Every result that a program may have is good. -/
def Returns (good : α → Prop) : Program Op α → Prop
  | .done result => good result
  | .perform _ next => ∀ result, (next result).Returns good

theorem Returns.of_run {good : α → Prop} {program : Program Op α} (returns : program.Returns good)
    {turns : List (Turn Op ι)} {shared after : σ} {result : α}
    (ran : program.run exec turns shared = some (result, after)) : good result := by
  induction turns generalizing program shared with
  | nil =>
      cases program with
      | done value => cases ran; exact returns
      | perform operation next => cases ran
  | cons turn rest induction =>
      cases turn with
      | other performance =>
          rw [run_other] at ran
          exact induction returns ran
      | own input =>
          cases program with
          | done value => cases ran
          | perform operation next => exact @induction (next _) (returns _) _ ran

theorem returns_of_forall {good : α → Prop} (all : ∀ result, good result)
    (program : Program Op α) : program.Returns good := by
  induction program with
  | done result => exact all result
  | perform operation next induction => exact induction

theorem Returns.bind {good : α → Prop} {better : β → Prop} {program : Program Op α}
    {following : α → Program Op β} (returns : program.Returns good)
    (later : ∀ result, good result → (following result).Returns better) :
    (program.bind following).Returns better := by
  induction program with
  | done result => exact later result returns
  | perform operation next induction => exact fun result => induction result (returns result)

/-! ## What a program ensures -/

section Ensures

variable (exec) (own others : Performance Op ι → Prop)

/-- An assertion that no such operation invalidates. -/
def Stable (assertion : σ → Prop) : Prop :=
  ∀ performance, others performance → ∀ shared, assertion shared →
    assertion (effect exec shared performance)

/-- Wherever the precondition holds, a run ends in the postcondition, if the program's own
operations and those of others are as they may be. -/
def Ensures (pre : σ → Prop) (program : Program Op α) (post : α → σ → Prop) : Prop :=
  ∀ turns shared result after, pre shared → program.run exec turns shared = some (result, after) →
    (∀ performance ∈ program.ownPerformances exec turns shared, own performance) →
    (∀ performance, .other performance ∈ turns → others performance) → post result after

/-- Every operation that the program may perform is of a kind. -/
def Uses (kind : ∀ γ : Type, Op γ → Prop) : Program Op α → Prop
  | .done _ => True
  | .perform operation next => kind _ operation ∧ ∀ result, (next result).Uses kind

variable {exec own others} {pre : σ → Prop}

theorem Stable.foldl {assertion : σ → Prop} (stable : Stable exec others assertion)
    {performed : List (Performance Op ι)} (all : ∀ performance ∈ performed, others performance)
    {shared : σ} (holds : assertion shared) : assertion (performed.foldl (effect exec) shared) := by
  induction performed generalizing shared with
  | nil => exact holds
  | cons performance rest induction =>
      obtain ⟨first, later⟩ := List.forall_mem_cons.mp all
      exact induction later (stable performance first shared holds)

/-- An assertion that neither others nor the operations of a program invalidate holds at its end. -/
theorem Stable.ensures {assertion : σ → Prop} (stable : Stable exec others assertion)
    {kind : ∀ γ : Type, Op γ → Prop} {program : Program Op α} (uses : program.Uses kind)
    (keeps : ∀ performance, kind _ performance.operation → own performance →
      ∀ shared, assertion shared → assertion (effect exec shared performance)) :
    Ensures exec own others assertion program fun _ => assertion := by
  intro turns shared result after holds ran all_own all_others
  induction turns generalizing program shared with
  | nil =>
      cases program with
      | done result => cases ran; exact holds
      | perform operation next => cases ran
  | cons turn rest induction =>
      obtain later : ∀ performance, .other performance ∈ rest → others performance :=
        fun performance member => all_others performance (List.mem_cons_of_mem _ member)
      cases turn with
      | other performance =>
          rw [run_other] at ran
          rw [ownPerformances_other] at all_own
          have first := all_others performance List.mem_cons_self
          exact induction uses _ (stable performance first shared holds) ran all_own later
      | own input =>
          cases program with
          | done result => cases ran
          | perform operation next =>
              obtain ⟨first, rest_own⟩ := List.forall_mem_cons.mp all_own
              exact @induction (next _) (uses.2 _) _
                (keeps ⟨operation, input⟩ uses.1 first shared holds) ran rest_own later

theorem uses_of_forall {kind : ∀ γ : Type, Op γ → Prop} (all : ∀ γ operation, kind γ operation)
    (program : Program Op α) : program.Uses kind := by
  induction program with
  | done result => trivial
  | perform operation next induction => exact ⟨all _ operation, induction⟩

theorem Ensures.imp {post weaker : α → σ → Prop} {program : Program Op α}
    (ensures : Ensures exec own others pre program post)
    (implies : ∀ result shared, post result shared → weaker result shared) :
    Ensures exec own others pre program weaker := by
  intro turns shared result after holds ran all_own all_others
  exact implies result after (ensures turns shared result after holds ran all_own all_others)

theorem ensures_done {post : α → σ → Prop} {result : α}
    (implies : ∀ shared, pre shared → post result shared)
    (stable : Stable exec others (post result)) :
    Ensures exec own others pre (.done result) post := by
  intro turns shared other after holds ran all_own all_others
  have uses : (done result : Program Op α).Uses fun _ _ => False := trivial
  have ended := stable.ensures uses (fun _ never => never.elim) turns shared other after
    (implies shared holds) ran all_own all_others
  rw [run_done ran]
  exact ended

theorem ensures_bind {middle : α → σ → Prop} {post : β → σ → Prop} {program : Program Op α}
    {following : α → Program Op β} (first : Ensures exec own others pre program middle)
    (later : ∀ result, Ensures exec own others (middle result) (following result) post) :
    Ensures exec own others pre (program.bind following) post := by
  intro turns shared result after holds ran all_own all_others
  obtain ⟨turns_first, turns_later, between, value, rfl, ran_first, ran_later, performed⟩ :=
    exists_of_run_bind ran
  rw [performed] at all_own
  obtain ⟨own_first, own_later⟩ := List.forall_mem_append.mp all_own
  have at_middle := first turns_first shared value between holds ran_first own_first
    fun performance member => all_others performance (List.mem_append_left _ member)
  exact later value turns_later between result after at_middle ran_later own_later
    fun performance member => all_others performance (List.mem_append_right _ member)

theorem ensures_perform {post : β → σ → Prop} {operation : Op β}
    (stable_pre : Stable exec others pre) (stable : ∀ result, Stable exec others (post result))
    (performs : ∀ input shared, pre shared → own ⟨operation, input⟩ →
      post (exec operation input shared).1 (exec operation input shared).2) :
    Ensures exec own others pre (.perform operation .done) post := by
  intro turns shared result after holds ran all_own all_others
  induction turns generalizing shared with
  | nil => cases ran
  | cons turn rest induction =>
      have later : ∀ performance, .other performance ∈ rest → others performance :=
        fun performance member => all_others performance (List.mem_cons_of_mem _ member)
      cases turn with
      | other performance =>
          rw [run_other] at ran
          rw [ownPerformances_other] at all_own
          have first := all_others performance List.mem_cons_self
          exact induction _ (stable_pre performance first shared holds) ran all_own later
      | own input =>
          obtain ⟨first, rest_own⟩ := List.forall_mem_cons.mp all_own
          exact ensures_done (fun _ => id) (stable _) rest _ result after
            (performs input shared holds first) ran rest_own later

end Ensures

/-! ## Programs of other operations -/

variable {Op' : Type → Type} (embed : ∀ γ : Type, Op γ → Op' γ)

/-- A program that performs the embedded operations. -/
def mapOperations : Program Op α → Program Op' α
  | .done result => .done result
  | .perform operation next =>
      .perform (embed _ operation) fun result => (next result).mapOperations

theorem mapOperations_bind (program : Program Op α) (following : α → Program Op β) :
    (program.bind following).mapOperations embed =
      (program.mapOperations embed).bind fun result => (following result).mapOperations embed := by
  induction program with
  | done result => rfl
  | perform operation next induction =>
      simp only [Program.bind, mapOperations, induction]

theorem Returns.mapOperations {good : α → Prop} {program : Program Op α}
    (returns : program.Returns good) : (program.mapOperations embed).Returns good := by
  induction program with
  | done result => exact returns
  | perform operation next induction => exact fun result => induction result (returns result)

theorem uses_mapOperations {kind : ∀ γ : Type, Op' γ → Prop}
    (all : ∀ γ operation, kind γ (embed γ operation)) (program : Program Op α) :
    (program.mapOperations embed).Uses kind := by
  induction program with
  | done result => trivial
  | perform operation next induction => exact ⟨all _ operation, induction⟩

end Program

namespace Handler

variable {Op Op' : Type → Type} {ι σ α β : Type}

/-- A handler that performs the embedded operations. -/
def lift (embed : ∀ γ : Type, Op γ → Op' γ) (handler : Handler Op α) : Handler Op' α :=
  ExceptT.mk (handler.run.mapOperations embed)

theorem lift_bind (embed : ∀ γ : Type, Op γ → Op' γ) (handler : Handler Op α)
    (following : α → Handler Op β) :
    lift embed (handler >>= following) =
      lift embed handler >>= fun result => lift embed (following result) := by
  apply (Program.mapOperations_bind embed handler.run _).trans
  refine congrArg (Program.bind _) (funext fun result => ?_)
  cases result <;> rfl

theorem lift_perform (embed : ∀ γ : Type, Op γ → Op' γ) (operation : Op α) :
    lift embed (perform operation) = perform (embed _ operation) := rfl

theorem map_eq_bind (change : α → β) (handler : Handler Op α) :
    change <$> handler = handler >>= fun value => pure (change value) := by
  refine congrArg (Program.bind handler.run) (funext fun result => ?_)
  cases result <;> rfl

variable {exec : ∀ {γ : Type}, Op γ → ι → σ → γ × σ} {own others : Performance Op ι → Prop}
  {pre : σ → Prop}

/-- After a handler has run without an error, the handler that follows runs. -/
theorem run_bind_append {handler : Handler Op α} {following : α → Handler Op β}
    {turns later : List (Turn Op ι)} {shared middle : σ} {value : α}
    (ran : handler.run.run exec turns shared = some (.ok value, middle)) :
    (handler >>= following).run.run exec (turns ++ later) shared =
      (following value).run.run exec later middle :=
  Program.run_bind_append ran

theorem exists_of_run_bind {handler : Handler Op α} {following : α → Handler Op β}
    {turns : List (Turn Op ι)} {shared after : σ} {value : β}
    (ran : (handler >>= following).run.run exec turns shared = some (.ok value, after)) :
    ∃ first later middle between, turns = first ++ later ∧
      handler.run.run exec first shared = some (.ok between, middle) ∧
      (following between).run.run exec later middle = some (.ok value, after) := by
  obtain ⟨first, later, middle, result, rfl, ran_first, ran_later, -⟩ :=
    Program.exists_of_run_bind ran
  cases result with
  | ok between => exact ⟨first, later, middle, between, rfl, ran_first, ran_later⟩
  | error message => cases Program.run_done ran_later

/-- The postcondition of a value, or what holds when an error is raised. -/
def Outcome (post : α → σ → Prop) (raised : σ → Prop) : Except String α → σ → Prop
  | .ok value => post value
  | .error _ => raised

/-- Wherever the precondition holds, a run ends in the postcondition or raises an error where it
may. -/
def Ensures (exec : ∀ {γ : Type}, Op γ → ι → σ → γ × σ) (own others : Performance Op ι → Prop)
    (raised pre : σ → Prop) (handler : Handler Op α) (post : α → σ → Prop) : Prop :=
  Program.Ensures exec own others pre handler.run (Outcome post raised)

theorem ensures_of_uses (stable : Program.Stable exec others pre) {handler : Handler Op α}
    {kind : ∀ γ : Type, Op γ → Prop} (uses : handler.run.Uses kind)
    (keeps : ∀ performance, kind _ performance.operation → own performance →
      ∀ shared, pre shared → pre (Program.effect exec shared performance)) :
    Ensures exec own others pre pre handler fun _ => pre :=
  (stable.ensures uses keeps).imp fun result _ holds => by cases result <;> exact holds

/-- An assertion that no operation at all invalidates. -/
theorem ensures_of_stable (stable_own : Program.Stable exec own pre)
    (stable : Program.Stable exec others pre) (handler : Handler Op α) :
    Ensures exec own others pre pre handler fun _ => pre :=
  ensures_of_uses stable (Program.uses_of_forall (fun _ _ => trivial) handler.run)
    fun performance (_ : True) => stable_own performance

section Rules

variable {raised : σ → Prop}

theorem ensures_pure {value : α} {post : α → σ → Prop}
    (implies : ∀ shared, pre shared → post value shared)
    (stable : Program.Stable exec others (post value)) :
    Ensures exec own others raised pre (pure value) post :=
  Program.ensures_done implies stable

theorem ensures_throw {message : String} {post : α → σ → Prop}
    (implies : ∀ shared, pre shared → raised shared)
    (stable_raised : Program.Stable exec others raised) :
    Ensures exec own others raised pre (throw message) post :=
  Program.ensures_done implies stable_raised

theorem ensures_bind {handler : Handler Op α} {following : α → Handler Op β}
    {middle : α → σ → Prop} {post : β → σ → Prop}
    (stable_raised : Program.Stable exec others raised)
    (first : Ensures exec own others raised pre handler middle)
    (later : ∀ value, Ensures exec own others raised (middle value) (following value) post) :
    Ensures exec own others raised pre (handler >>= following) post := by
  refine Program.ensures_bind first fun result => ?_
  cases result with
  | ok value => exact later value
  | error message => exact ensures_throw (fun _ holds => holds) stable_raised

theorem ensures_perform {operation : Op α} {post : α → σ → Prop}
    (stable_pre : Program.Stable exec others pre)
    (stable : ∀ value, Program.Stable exec others (post value))
    (performs : ∀ input shared, pre shared → own ⟨operation, input⟩ →
      post (exec operation input shared).1 (exec operation input shared).2) :
    Ensures exec own others raised pre (perform operation) post := by
  have performed := Program.ensures_perform stable_pre stable performs
  refine Program.ensures_bind performed fun value => ?_
  exact ensures_pure (fun _ holds => holds) (stable value)

theorem Ensures.imp {handler : Handler Op α} {stronger raised' : σ → Prop}
    {post weaker : α → σ → Prop} (ensures : Ensures exec own others raised pre handler post)
    (implied : ∀ shared, stronger shared → pre shared)
    (implies : ∀ value shared, post value shared → weaker value shared)
    (raises : ∀ shared, raised shared → raised' shared) :
    Ensures exec own others raised' stronger handler weaker := by
  intro turns shared result after holds ran all_own all_others
  have ended := ensures turns shared result after (implied shared holds) ran all_own all_others
  cases result with
  | ok value => exact implies value after ended
  | error message => exact raises after ended

theorem Ensures.of_stronger {handler : Handler Op α} {stronger : σ → Prop} {post : α → σ → Prop}
    (ensures : Ensures exec own others raised pre handler post)
    (implied : ∀ shared, stronger shared → pre shared) :
    Ensures exec own others raised stronger handler post :=
  ensures.imp implied (fun _ _ holds => holds) fun _ holds => holds

theorem Ensures.and {handler : Handler Op α} {post other : α → σ → Prop}
    (ensures : Ensures exec own others raised pre handler post)
    (ensures_other : Ensures exec own others raised pre handler other) :
    Ensures exec own others raised pre handler fun value shared =>
      post value shared ∧ other value shared := by
  intro turns shared result after holds ran all_own all_others
  have ended := ensures turns shared result after holds ran all_own all_others
  have ended_other := ensures_other turns shared result after holds ran all_own all_others
  cases result with
  | ok value => exact ⟨ended, ended_other⟩
  | error message => exact ended

end Rules

/-! ## Handlers that raise no error -/

/-- The handler raises no error. -/
def Quiet (handler : Handler Op α) : Prop :=
  handler.run.Returns fun result => ∃ value, result = .ok value

theorem quiet_pure (value : α) : Quiet (pure value : Handler Op α) := ⟨value, rfl⟩

theorem quiet_perform (operation : Op α) : Quiet (perform operation) := fun value => ⟨value, rfl⟩

theorem quiet_attempt (handler : Handler Op α) : Quiet (attempt handler) := by
  have returns := Program.returns_of_forall (fun _ => trivial) handler.run
  exact returns.bind fun result (_ : True) => ⟨result.toOption, rfl⟩

theorem Quiet.bind {handler : Handler Op α} {following : α → Handler Op β}
    (quiet : Quiet handler) (later : ∀ value, Quiet (following value)) :
    Quiet (handler >>= following) := by
  refine Program.Returns.bind quiet fun result is_ok => ?_
  obtain ⟨value, rfl⟩ := is_ok
  exact later value

theorem Quiet.lift {handler : Handler Op α} (quiet : Quiet handler)
    (embed : ∀ γ : Type, Op γ → Op' γ) : Quiet (lift embed handler) :=
  Program.Returns.mapOperations embed quiet

/-- A handler that raises no error raises none where it may not. -/
theorem Quiet.ensures {handler : Handler Op α} (quiet : Quiet handler) {raised raised' : σ → Prop}
    {post : α → σ → Prop} (ensures : Ensures exec own others raised pre handler post) :
    Ensures exec own others raised' pre handler post := by
  intro turns shared result after holds ran all_own all_others
  have ended := ensures turns shared result after holds ran all_own all_others
  obtain ⟨value, rfl⟩ := Program.Returns.of_run quiet ran
  exact ended

end Handler

namespace Threads

variable {Op : Type → Type} {μ ρ ι σ : Type}

end Threads
