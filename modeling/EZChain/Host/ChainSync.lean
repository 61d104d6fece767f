import EZChain.Host.AccountNetwork
import EZChain.Library.Interference

/-!
# Chain sync

An account host asks its consensus peers for the chain and fetches what it lacks, while messages of
its peers are handled.  It starts above the largest height that it holds a block of, and so never
asks for a block that is missing below.  The heights above are all held in the end if every fetch is
answered and no later chain cursor takes blocks away.
-/

namespace EZChain

open Program

variable {H : Type}

/-! ## The sync -/

/-- What a sync looks up besides the operations of the handlers. -/
inductive FetchedOp : Type → Type where
  | heights : FetchedOp (List ℕ)

/-- One operation of a sync. -/
abbrev SyncOp (H : Type) (β : Type) : Type := HostOp H β ⊕ FetchedOp β

/-- The last height to sync. -/
def targetHeight (endHeight : Option ℤ) (cursor : ChainSyncCursor H) : ℤ :=
  match endHeight with
  | none => cursor.height
  | some endHeight => min endHeight cursor.height

/-- The largest height that a block is held of. -/
def largestHeld (held : List ℕ) : ℕ := held.max?.getD 0

/-- The heights of the blocks that a sync fetches. -/
def heightsToFetch (startHeight endHeight : Option ℤ) (cursor : ChainSyncCursor H)
    (held : List ℕ) : List ℕ :=
  let target := targetHeight endHeight cursor
  if target ≤ 0 then []
  else
    let fetchFrom := match startHeight with
      | none => (largestHeld held : ℤ) + 1
      | some startHeight => max 1 startHeight
    if target < fetchFrom then []
    else List.range' fetchFrom.toNat (target + 1 - fetchFrom).toNat

namespace SyncOp

open Handler

/-- An operation of the handlers. -/
def embed (β : Type) (operation : HostOp H β) : SyncOp H β := .inl operation

variable [DecidableEq H]

/-- The loop of `sync_chain_blocks`. -/
def fetchBlocks : List ℕ → Handler (SyncOp H) (List (BlockV2 H))
  | [] => pure []
  | height :: rest => do
      let block ← Handler.lift embed (HostOp.fetchBlockAt height)
      let fetched ← fetchBlocks rest
      pure (block.toList ++ fetched)

/-- `sync_chain_blocks`. -/
def syncChainBlocks (startHeight endHeight : Option ℤ) :
    Handler (SyncOp H) (List (BlockV2 H)) := do
  let cursor ← Handler.lift embed HostOp.refreshChainState
  let held ← perform (.inr .heights)
  fetchBlocks (heightsToFetch startHeight endHeight cursor held)

variable [Crypto H]

/-- Perform one operation. -/
def exec {β : Type} : SyncOp H β → HostInput H → AccountHost H → β × AccountHost H
  | .inl operation, input, host => host.exec input operation
  | .inr .heights, _, host => (host.fetchedBlocks.keys, host)

end SyncOp

namespace SyncOp

/-- A performed operation. -/
abbrev Performed (H : Type) : Type 1 := Performance (SyncOp H) (HostInput H)

end SyncOp

/-! ## What an operation does to the fetched blocks -/

namespace SyncOp

/-- The block that an operation stores. -/
def heldBlock : Performed H → Option (BlockV2 H)
  | ⟨.inl (.holdBlock block), _⟩ => some block
  | _ => none

/-- The cursor that an operation reconciles the fetched blocks with. -/
def takenCursor : Performed H → Option (ChainSyncCursor H)
  | ⟨.inl (.reconcileFetchedBlocks cursor), _⟩ => some cursor
  | _ => none

variable [Crypto H] [DecidableEq H]

theorem fetchedBlocks_effect_of_heldBlock {performed : Performed H} {block : BlockV2 H}
    (stores : heldBlock performed = some block) (host : AccountHost H) :
    (effect exec host performed).fetchedBlocks =
      host.fetchedBlocks.set block.header.height block := by
  unfold heldBlock at stores
  split at stores
  · cases stores
    rfl
  · cases stores

/-- An operation stores a block, reconciles with a cursor, or leaves the fetched blocks alone. -/
theorem fetchedBlocks_effect (performed : Performed H) (host : AccountHost H) :
    (∃ block, heldBlock performed = some block ∧
      (effect exec host performed).fetchedBlocks =
        host.fetchedBlocks.set block.header.height block) ∨
    (∃ cursor, takenCursor performed = some cursor ∧
      (effect exec host performed).fetchedBlocks =
        (host.reconcileFetchedBlocks cursor).fetchedBlocks) ∨
    (effect exec host performed).fetchedBlocks = host.fetchedBlocks := by
  obtain ⟨operation, input⟩ := performed
  rcases operation with operation | ⟨⟨⟩⟩
  · cases operation with
    | holdBlock block => exact .inl ⟨block, rfl, rfl⟩
    | reconcileFetchedBlocks cursor => exact .inr (.inl ⟨cursor, rfl, rfl⟩)
    | reloadState =>
        refine .inr (.inr ?_)
        simp only [effect, exec, AccountHost.exec, AccountHost.reloadState]
        split <;> rfl
    | onReceiptConfirmed receipt =>
        refine .inr (.inr ?_)
        simp only [effect, exec, AccountHost.exec, AccountHost.onReceiptConfirmed]
        split <;> rfl
    | receiveTransfer package =>
        refine .inr (.inr ?_)
        simp only [effect, exec, AccountHost.exec, AccountHost.receiveTransfer]
        repeat' split
        all_goals rfl
    | _ => exact .inr (.inr rfl)
  · exact .inr (.inr rfl)

end SyncOp

/-! ## One canonical chain -/

/-- The blocks of a chain, each at its height. -/
structure CanonicalChain (H : Type) where
  block : ℕ → BlockV2 H
  height_block : ∀ height, (block height).header.height = height

namespace AccountHost

variable [DecidableEq H] {host : AccountHost H} {cursor : ChainSyncCursor H}

theorem get?_of_reconcileFetchedBlocks {height : ℕ} {block : BlockV2 H}
    (found : (host.reconcileFetchedBlocks cursor).fetchedBlocks.get? height = some block) :
    host.fetchedBlocks.get? height = some block := by
  simp only [reconcileFetchedBlocks] at found
  split at found
  · cases found
  · dsimp only at found
    split at found
    · cases found
    · rw [OrderedDict.get?_filterKeys] at found
      exact (ite_eq_iff.mp found).elim And.right fun absent => absurd absent.2 nofun

theorem get?_reconcileFetchedBlocks {height : ℕ} (positive : 0 < cursor.height)
    (within : (height : ℤ) ≤ cursor.height)
    (same : ∀ block, host.fetchedBlocks.get? cursor.height.toNat = some block →
      cursor.blockHashHex.nonempty → cursor.blockHashHex = .digest block.blockHash) :
    (host.reconcileFetchedBlocks cursor).fetchedBlocks.get? height =
      host.fetchedBlocks.get? height := by
  have kept : ((host.fetchedBlocks.get? cursor.height.toNat).any fun block =>
      cursor.blockHashHex.nonempty && HashText.digest block.blockHash ≠ cursor.blockHashHex) =
        false := by
    cases found : host.fetchedBlocks.get? cursor.height.toNat with
    | none => rfl
    | some block =>
        cases named : cursor.blockHashHex.nonempty with
        | false => rfl
        | true => simp [same block found named]
  simp only [reconcileFetchedBlocks, not_le.mpr positive, if_false, kept]
  rw [if_neg nofun, OrderedDict.get?_filterKeys, if_pos (decide_eq_true within)]

end AccountHost

namespace CanonicalChain

variable (chain : CanonicalChain H)

/-- Every held block is the chain's block of its height. -/
def Sound (host : AccountHost H) : Prop :=
  ∀ height block, host.fetchedBlocks.get? height = some block → block = chain.block height

/-- The chain's block of a height is held. -/
def HeldAt (height : ℕ) (host : AccountHost H) : Prop :=
  host.fetchedBlocks.get? height = some (chain.block height)

/-- The chain's blocks are held from the first height to the target. -/
def Covers (target : ℤ) (host : AccountHost H) : Prop :=
  ∀ height : ℕ, 1 ≤ height → (height : ℤ) ≤ target → chain.HeldAt height host

/-- Only blocks of the chain are stored. -/
def HandsOver (performed : SyncOp.Performed H) : Prop :=
  ∀ block ∈ SyncOp.heldBlock performed, block = chain.block block.header.height

/-- Blocks are reconciled only with a cursor of the chain that reaches the target. -/
def Reaches (target : ℤ) (performed : SyncOp.Performed H) : Prop :=
  ∀ cursor ∈ SyncOp.takenCursor performed, target ≤ cursor.height ∧
    (cursor.blockHashHex.nonempty →
      cursor.blockHashHex = .digest (chain.block cursor.height.toNat).blockHash)

variable {chain} [Crypto H] [DecidableEq H] {target : ℤ}

theorem stable_sound : Stable SyncOp.exec chain.HandsOver chain.Sound := by
  intro performed hands_over host sound height block found
  rcases SyncOp.fetchedBlocks_effect performed host with
    ⟨stored, is_stored, blocks_eq⟩ | ⟨cursor, _, blocks_eq⟩ | blocks_eq
  · rw [blocks_eq, OrderedDict.get?_set] at found
    split at found
    · next height_eq =>
        cases found
        rw [← height_eq]
        exact hands_over _ is_stored
    · exact sound height block found
  · rw [blocks_eq] at found
    exact sound height block (AccountHost.get?_of_reconcileFetchedBlocks found)
  · rw [blocks_eq] at found
    exact sound height block found

/-- A block within the target stays held. -/
theorem stable_heldAt {height : ℕ} (positive : 1 ≤ height) (within : (height : ℤ) ≤ target) :
    Stable SyncOp.exec (fun performed => chain.HandsOver performed ∧ chain.Reaches target performed)
      fun host => chain.Sound host ∧ chain.HeldAt height host := by
  rintro performed ⟨hands_over, reaches⟩ host ⟨sound, held⟩
  refine ⟨stable_sound performed hands_over host sound, ?_⟩
  rw [HeldAt]
  rcases SyncOp.fetchedBlocks_effect performed host with
    ⟨stored, is_stored, blocks_eq⟩ | ⟨cursor, is_taken, blocks_eq⟩ | blocks_eq
  · rw [blocks_eq, OrderedDict.get?_set]
    split
    · next height_eq => rw [hands_over _ is_stored, height_eq]
    · exact held
  · obtain ⟨reached, names⟩ := reaches cursor is_taken
    rw [blocks_eq, AccountHost.get?_reconcileFetchedBlocks (by omega) (by omega)]
    · exact held
    · intro block found named
      rw [sound _ block found]
      exact names named
  · rw [blocks_eq]
    exact held

theorem stable_missing (height : ℕ) :
    Stable SyncOp.exec
      (fun performed => ∀ block ∈ SyncOp.heldBlock performed, block.header.height ≠ height)
      fun host : AccountHost H => host.fetchedBlocks.get? height = none := by
  intro performed elsewhere host missing
  rcases SyncOp.fetchedBlocks_effect performed host with
    ⟨stored, is_stored, blocks_eq⟩ | ⟨cursor, _, blocks_eq⟩ | blocks_eq
  · rw [blocks_eq, OrderedDict.get?_set_of_ne _ (elsewhere stored is_stored)]
    exact missing
  · rw [blocks_eq, Option.eq_none_iff_forall_ne_some]
    intro block found
    rw [AccountHost.get?_of_reconcileFetchedBlocks found] at missing
    cases missing
  · rw [blocks_eq]
    exact missing

/-! ## Fetching -/

section Fetching

/-- The operations of a run that stores blocks of the chain and loses none within the target. -/
def Allowed (chain : CanonicalChain H) (target : ℤ) (performed : SyncOp.Performed H) : Prop :=
  chain.HandsOver performed ∧ chain.Reaches target performed

theorem stable_sound_of_allowed : Stable SyncOp.exec (chain.Allowed target) chain.Sound :=
  fun performed allowed => stable_sound performed allowed.1

/-- A host that holds blocks of the chain only, and the one of a height if a fetch found it. -/
def Answered (chain : CanonicalChain H) (height : ℕ) (found : Option (BlockV2 H))
    (host : AccountHost H) : Prop :=
  chain.Sound host ∧ (found.isSome → chain.HeldAt height host)

variable {height : ℕ} (positive : 1 ≤ height) (within : (height : ℤ) ≤ target)
include positive within

theorem stable_answered (found : Option (BlockV2 H)) :
    Stable SyncOp.exec (chain.Allowed target) (chain.Answered height found) := by
  rintro performed allowed host ⟨sound, held⟩
  refine ⟨stable_sound_of_allowed performed allowed host sound, fun is_found => ?_⟩
  exact (stable_heldAt positive within performed allowed host ⟨sound, held is_found⟩).2

/-- What a part of a sync ensures among others, whether it raises or not. -/
abbrev SyncEnsures (chain : CanonicalChain H) (target : ℤ) {α : Type} (pre : AccountHost H → Prop)
    (handler : Handler (SyncOp H) α) (post : α → AccountHost H → Prop) : Prop :=
  Handler.Ensures SyncOp.exec (chain.Allowed target) (chain.Allowed target) chain.Sound pre handler
    post

theorem ensures_getFetchedBlock :
    chain.SyncEnsures target chain.Sound
      (Handler.lift SyncOp.embed (Handler.perform (HostOp.getFetchedBlock height)))
      (chain.Answered height) := by
  rw [Handler.lift_perform]
  apply Handler.ensures_perform stable_sound_of_allowed (stable_answered positive within)
  intro input host sound _
  refine ⟨sound, fun is_found => ?_⟩
  obtain ⟨block, found⟩ := Option.isSome_iff_exists.mp is_found
  exact found.trans (congrArg some (sound height block found))

/-- A fetch that is answered leaves the chain's block. -/
theorem ensures_fetchBlockAt :
    chain.SyncEnsures target chain.Sound
      (Handler.lift SyncOp.embed (HostOp.fetchBlockAt height)) (chain.Answered height) := by
  have sound_stays : Stable SyncOp.exec (chain.Allowed target) chain.Sound :=
    stable_sound_of_allowed
  have looks_up : chain.SyncEnsures target chain.Sound
      (Handler.lift SyncOp.embed (Handler.perform (HostOp.getFetchedBlock height)))
      (chain.Answered height) := ensures_getFetchedBlock positive within
  have keeps {α : Type} {handler : Handler (SyncOp H) α} :
      chain.SyncEnsures target chain.Sound handler fun _ => chain.Sound :=
    Handler.ensures_of_stable sound_stays sound_stays handler
  have gives_back (found : Option (BlockV2 H)) :
      chain.SyncEnsures target (chain.Answered height found)
        (pure found : Handler (SyncOp H) (Option (BlockV2 H))) (chain.Answered height) :=
    Handler.ensures_pure (fun _ holds => holds) (stable_answered positive within found)
  unfold HostOp.fetchBlockAt HostOp.fetchBlockWith
  rw [Handler.lift_bind]
  refine Handler.ensures_bind sound_stays keeps fun _ => ?_
  rw [Handler.lift_bind]
  refine Handler.ensures_bind sound_stays keeps fun response => ?_
  rw [Handler.lift_bind]
  refine Handler.ensures_bind sound_stays looks_up fun found => ?_
  cases found with
  | some block => exact gives_back (some block)
  | none =>
      -- The look-up after a retry is the same as the first one.
      have looks_again := looks_up.of_stronger
        fun host (held : chain.Answered height none host) => held.1
      dsimp only
      by_cases is_missing : response.status = some "missing"
      · have unanswered : Stable SyncOp.exec (chain.Allowed target) (chain.Answered height none) :=
          stable_answered positive within none
        rw [if_pos is_missing, Handler.lift_bind]
        refine Handler.ensures_bind sound_stays
          ((Handler.ensures_of_stable unanswered unanswered _).imp (fun _ holds => holds)
            (fun _ _ holds => holds) fun _ held => held.1) fun retried => ?_
        split
        · exact looks_again
        · exact looks_again
        · exact gives_back none
      · rw [if_neg is_missing]
        exact gives_back none

end Fetching

/-- A host that holds blocks of the chain only, and all that were fetched if as many came back. -/
def Fetched (chain : CanonicalChain H) (heights : List ℕ) (fetched : List (BlockV2 H))
    (host : AccountHost H) : Prop :=
  chain.Sound host ∧ fetched.length ≤ heights.length ∧
    (fetched.length = heights.length → ∀ height ∈ heights, chain.HeldAt height host)

variable {heights : List ℕ} (in_range : ∀ height ∈ heights, 1 ≤ height ∧ (height : ℤ) ≤ target)
include in_range

theorem stable_fetched (fetched : List (BlockV2 H)) :
    Stable SyncOp.exec (chain.Allowed target) (chain.Fetched heights fetched) := by
  rintro performed allowed host ⟨sound, le_length, held⟩
  refine ⟨stable_sound_of_allowed performed allowed host sound, le_length, ?_⟩
  intro length_eq height member
  obtain ⟨positive, within⟩ := in_range height member
  exact (stable_heldAt positive within performed allowed host
    ⟨sound, held length_eq height member⟩).2

/-- If as many blocks come back as are fetched, the chain's blocks of all their heights are held. -/
theorem ensures_fetchBlocks :
    chain.SyncEnsures target chain.Sound (SyncOp.fetchBlocks heights)
      (chain.Fetched heights) := by
  induction heights with
  | nil =>
      exact Handler.ensures_pure (fun host sound => ⟨sound, le_rfl, fun _ => nofun⟩)
        (stable_fetched in_range [])
  | cons height rest induction =>
      obtain ⟨⟨positive, within⟩, rest_in_range⟩ := List.forall_mem_cons.mp in_range
      have sound_stays : Stable SyncOp.exec (chain.Allowed target) chain.Sound :=
        stable_sound_of_allowed
      rw [SyncOp.fetchBlocks]
      refine Handler.ensures_bind sound_stays (ensures_fetchBlockAt positive within) fun found => ?_
      have fetches_rest := (induction rest_in_range).of_stronger
        fun host (held : chain.Answered height found host) => held.1
      have stays : Stable SyncOp.exec (chain.Allowed target) (chain.Answered height found) :=
        stable_answered positive within found
      have keeps := (Handler.ensures_of_stable stays stays (SyncOp.fetchBlocks rest)).imp
        (fun _ holds => holds) (fun _ _ holds => holds) fun _ held => held.1
      refine Handler.ensures_bind sound_stays (fetches_rest.and keeps) fun fetched => ?_
      refine (Handler.ensures_pure (fun _ holds => holds)
        (stable_fetched in_range (found.toList ++ fetched))).of_stronger ?_
      rintro host ⟨⟨sound, le_length, rest_held⟩, -, found_held⟩
      refine ⟨sound, ?_, ?_⟩
      · cases found with
        | none => exact le_length.trans (Nat.le_succ _)
        | some block => exact Nat.succ_le_succ le_length
      · intro length_eq
        cases found with
        | none =>
            have : fetched.length = rest.length + 1 := length_eq
            omega
        | some block =>
            exact List.forall_mem_cons.mpr ⟨found_held rfl, rest_held (Nat.succ.inj length_eq)⟩

omit in_range in
theorem heldAt_of_handedOver {height : ℕ} (positive : 1 ≤ height) (within : (height : ℤ) ≤ target)
    {performed : List (SyncOp.Performed H)}
    (all : ∀ performance ∈ performed, chain.Allowed target performance) {host : AccountHost H}
    (sound : chain.Sound host)
    (handed_over : ∃ performance ∈ performed, ∃ block ∈ SyncOp.heldBlock performance,
      block.header.height = height) :
    chain.HeldAt height (performed.foldl (effect SyncOp.exec) host) := by
  obtain ⟨performance, member, block, stores, height_eq⟩ := handed_over
  obtain ⟨earlier, later, rfl⟩ := List.append_of_mem member
  obtain ⟨all_earlier, all_later⟩ := List.forall_mem_append.mp all
  obtain ⟨allowed, all_rest⟩ := List.forall_mem_cons.mp all_later
  have sound_before := stable_sound_of_allowed.foldl all_earlier sound
  rw [List.foldl_append, List.foldl_cons]
  refine ((stable_heldAt positive within).foldl all_rest ⟨?_, ?_⟩).2
  · exact stable_sound_of_allowed performance allowed _ sound_before
  · rw [HeldAt]
    rw [SyncOp.fetchedBlocks_effect_of_heldBlock stores, height_eq, OrderedDict.get?_set_self,
      allowed.1 block stores, height_eq]

end CanonicalChain

/-! ## A whole sync -/

theorem mem_heightsToFetch {endHeight : Option ℤ} {cursor : ChainSyncCursor H} {held : List ℕ}
    {height : ℕ} :
    height ∈ heightsToFetch none endHeight cursor held ↔
      largestHeld held < height ∧ (height : ℤ) ≤ targetHeight endHeight cursor := by
  simp only [heightsToFetch]
  split_ifs with nothing beyond
  · simp only [List.not_mem_nil, false_iff]
    omega
  · simp only [List.not_mem_nil, false_iff]
    omega
  · rw [List.mem_range'_1]
    omega

variable [Crypto H] [DecidableEq H]

/-- A call of `sync_chain_blocks` without a start height that returns, among others on the host. -/
structure SyncRun (H : Type) [Crypto H] [DecidableEq H] (endHeight : Option ℤ) where
  before : AccountHost H
  refreshing : List (Turn (SyncOp H) (HostInput H))
  cursor : ChainSyncCursor H
  /-- The host when the held heights are looked up. -/
  noticed : AccountHost H
  refreshes : (Handler.lift SyncOp.embed HostOp.refreshChainState).run.run SyncOp.exec refreshing
    before = some (.ok cursor, noticed)
  input : HostInput H
  syncing : List (Turn (SyncOp H) (HostInput H))
  fetched : List (BlockV2 H)
  after : AccountHost H
  returns : (SyncOp.syncChainBlocks none endHeight).run.run SyncOp.exec
    (refreshing ++ .own input :: syncing) before = some (.ok fetched, after)

namespace SyncRun

variable {endHeight : Option ℤ} (run : SyncRun H endHeight)

def target : ℤ := targetHeight endHeight run.cursor

/-- The heights of the blocks that are held when they are looked up. -/
def held : List ℕ := run.noticed.fetchedBlocks.keys

/-- The heights that are fetched. -/
def heights : List ℕ := heightsToFetch none endHeight run.cursor run.held

/-- The operations that are performed before the look-up. -/
def earlier : List (SyncOp.Performed H) :=
  (Handler.lift SyncOp.embed HostOp.refreshChainState).run.performances SyncOp.exec run.refreshing
    run.before

/-- The operations that are performed after the look-up. -/
def later : List (SyncOp.Performed H) :=
  (SyncOp.fetchBlocks run.heights).run.performances SyncOp.exec run.syncing run.noticed

theorem fetches : (SyncOp.fetchBlocks run.heights).run.run SyncOp.exec run.syncing run.noticed =
    some (.ok run.fetched, run.after) := by
  have returns := run.returns
  rw [SyncOp.syncChainBlocks] at returns
  rw [Handler.run_bind_append run.refreshes] at returns
  exact returns

/-- After a sync whose fetches are all answered, and in which no later chain cursor ends below the
target, the blocks up to the target are held exactly if those missing below the largest held height
were handed over meanwhile. -/
theorem covers_iff (chain : CanonicalChain H) (sound : chain.Sound run.before)
    (hands_over : ∀ performed ∈ run.earlier ++ run.later, chain.HandsOver performed)
    (answered : run.fetched.length = run.heights.length)
    (reaches : ∀ performed ∈ run.later, chain.Reaches run.target performed) :
    chain.Covers run.target run.after ↔
      ∀ height : ℕ, 1 ≤ height → (height : ℤ) ≤ run.target → height ≤ largestHeld run.held →
        height ∈ run.held ∨ ∃ performed ∈ run.later, ∃ block ∈ SyncOp.heldBlock performed,
          block.header.height = height := by
  obtain ⟨hands_over_earlier, hands_over_later⟩ := List.forall_mem_append.mp hands_over
  have allowed : ∀ performed ∈ run.later, chain.Allowed run.target performed :=
    fun performed member => ⟨hands_over_later performed member, reaches performed member⟩
  have sound_noticed : chain.Sound run.noticed := by
    rw [eq_foldl_of_run run.refreshes]
    exact CanonicalChain.stable_sound.foldl hands_over_earlier sound
  have after_eq : run.after = run.later.foldl (effect SyncOp.exec) run.noticed :=
    eq_foldl_of_run run.fetches
  constructor
  · intro covers height positive within _
    by_contra missing
    obtain ⟨not_held, not_handed_over⟩ := not_or.mp missing
    have elsewhere : ∀ performed ∈ run.later, ∀ block ∈ SyncOp.heldBlock performed,
        block.header.height ≠ height := by
      intro performed member block stores height_eq
      exact not_handed_over ⟨performed, member, block, stores, height_eq⟩
    have still_missing := (CanonicalChain.stable_missing height).foldl elsewhere
      ((OrderedDict.get?_eq_none_iff run.noticed.fetchedBlocks height).mpr not_held)
    rw [← after_eq, covers height positive within] at still_missing
    cases still_missing
  · intro no_gap height positive within
    by_cases below : height ≤ largestHeld run.held
    · rw [after_eq]
      rcases no_gap height positive within below with is_held | handed_over
      · cases found : run.noticed.fetchedBlocks.get? height with
        | none => exact absurd is_held ((OrderedDict.get?_eq_none_iff _ _).mp found)
        | some block =>
            have held_at : chain.HeldAt height run.noticed :=
              found.trans (congrArg some (sound_noticed height block found))
            exact ((CanonicalChain.stable_heldAt positive within).foldl allowed
              ⟨sound_noticed, held_at⟩).2
      · exact CanonicalChain.heldAt_of_handedOver positive within allowed sound_noticed handed_over
    · have in_range : ∀ height ∈ run.heights, 1 ≤ height ∧ (height : ℤ) ≤ run.target := by
        intro height member
        obtain ⟨above, within⟩ := mem_heightsToFetch.mp member
        exact ⟨by omega, within⟩
      have fetched := CanonicalChain.ensures_fetchBlocks in_range run.syncing run.noticed _
        run.after sound_noticed run.fetches
        (fun performed member => allowed performed (mem_performances_of_own member))
        fun performed member => allowed performed (mem_performances_of_other run.fetches member)
      exact fetched.2.2 answered height (mem_heightsToFetch.mpr ⟨not_le.mp below, within⟩)

/-- A refresh and the fetches after it are a run. -/
def ofFetches {before noticed after : AccountHost H} {cursor : ChainSyncCursor H}
    {refreshing syncing : List (Turn (SyncOp H) (HostInput H))} {fetched : List (BlockV2 H)}
    (refreshes : (Handler.lift SyncOp.embed HostOp.refreshChainState).run.run SyncOp.exec refreshing
      before = some (.ok cursor, noticed)) (input : HostInput H)
    (fetches : (SyncOp.fetchBlocks (heightsToFetch none endHeight cursor
      noticed.fetchedBlocks.keys)).run.run SyncOp.exec syncing noticed =
        some (.ok fetched, after)) : SyncRun H endHeight where
  before := before
  refreshing := refreshing
  cursor := cursor
  noticed := noticed
  refreshes := refreshes
  input := input
  syncing := syncing
  fetched := fetched
  after := after
  returns := by
    rw [SyncOp.syncChainBlocks]
    rw [Handler.run_bind_append refreshes]
    exact fetches

end SyncRun

/-! ## Samples -/

namespace SyncRun

open SymbolicDigest

/-- The same block at every height. -/
def sampleChain : CanonicalChain SymbolicDigest where
  block height := { genesis.peerBlock 1 firstEntry with
    header := { (genesis.peerBlock 1 firstEntry).header with height := height } }
  height_block _ := rfl

/-- A host that holds some blocks and has seen a chain, with one consensus peer. -/
def hostHolding (blocks : OrderedDict ℕ (BlockV2 SymbolicDigest))
    (seen : Option (ChainSyncCursor SymbolicDigest)) : AccountHost SymbolicDigest where
  store := .new alice (filled 0)
  memory := .new alice (filled 0)
  fetchedBlocks := blocks
  lastSeenChain := seen
  consensusPeerIds := ["consensus-0"]
  autoAcceptReceipts := true
  receiptPullPeers := []
  suppressReceiptPull := false

/-- The peer's chain ends at a height. -/
def chainEnds (height : ℕ) : HostInput SymbolicDigest :=
  ⟨.ok ⟨some (sampleChain.block height).cursor, some "ok"⟩, ""⟩

/-- The peer answers, but not with a chain state. -/
def answered : HostInput SymbolicDigest := ⟨.ok ⟨none, some "ok"⟩, ""⟩

/-- The operations of a refresh. -/
def refreshed (height : ℕ) : List (SyncOp.Performed SymbolicDigest) :=
  [⟨.inl .consensusPeerIds, chainEnds height⟩,
    ⟨.inl (.send "consensus-0" .chainState), chainEnds height⟩,
    ⟨.inl (.seeChain (sampleChain.block height).cursor), chainEnds height⟩,
    ⟨.inl (.promoteConsensusPeer "consensus-0"), chainEnds height⟩,
    ⟨.inl (.reconcileFetchedBlocks (sampleChain.block height).cursor), chainEnds height⟩]

theorem handsOver_refreshed (height : ℕ) :
    ∀ performed ∈ refreshed height, sampleChain.HandsOver performed := by
  simp [refreshed, CanonicalChain.HandsOver, SyncOp.heldBlock]

/-! ### A fresh host -/

theorem refreshes_fresh : (Handler.lift SyncOp.embed HostOp.refreshChainState).run.run SyncOp.exec
    (List.replicate 5 (.own (chainEnds 1))) (hostHolding ∅ none) =
      some (.ok (sampleChain.block 1).cursor,
        hostHolding ∅ (some (sampleChain.block 1).cursor)) := rfl

theorem heights_fresh : heightsToFetch none none (sampleChain.block 1).cursor [] = [1] := by decide

/-- The block arrives while the fetch waits for it. -/
def fetching : List (Turn (SyncOp SymbolicDigest) (HostInput SymbolicDigest)) :=
  List.replicate 6 (.own answered) ++
    [.other ⟨.inl (.holdBlock (sampleChain.block 1)), answered⟩, .own answered]

theorem fetches_fresh : (SyncOp.fetchBlocks [1]).run.run SyncOp.exec fetching
    (hostHolding ∅ (some (sampleChain.block 1).cursor)) =
      some (.ok [sampleChain.block 1],
        (hostHolding ∅ (some (sampleChain.block 1).cursor)).holdBlock (sampleChain.block 1)) := rfl

/-- A fresh host fetches the only block. -/
def freshSync : SyncRun SymbolicDigest none :=
  ofFetches refreshes_fresh answered (heights_fresh.symm ▸ fetches_fresh)

theorem later_freshSync : freshSync.later =
    [⟨.inl .consensusPeerIds, answered⟩, ⟨.inl (.send "consensus-0" .chainState), answered⟩,
      ⟨.inl .lastSeenChain, answered⟩, ⟨.inl .consensusPeerIds, answered⟩,
      ⟨.inl (.send "consensus-0" (.blockFetchAt 1)), answered⟩,
      ⟨.inl (.promoteConsensusPeer "consensus-0"), answered⟩,
      ⟨.inl (.holdBlock (sampleChain.block 1)), answered⟩,
        ⟨.inl (.getFetchedBlock 1), answered⟩] := by
  have heights_eq : freshSync.heights = [1] := heights_fresh
  rw [later, heights_eq]
  rfl

theorem covers_freshSync : sampleChain.Covers freshSync.target freshSync.after := by
  refine (freshSync.covers_iff sampleChain (fun _ _ => nofun) ?_ ?_ ?_).mpr ?_
  · refine List.forall_mem_append.mpr ⟨handsOver_refreshed 1, ?_⟩
    rw [later_freshSync]
    simp [CanonicalChain.HandsOver, SyncOp.heldBlock, sampleChain.height_block]
  · exact congrArg List.length heights_fresh.symm
  · rw [later_freshSync]
    simp [CanonicalChain.Reaches, SyncOp.takenCursor]
  · intro height positive _ below
    exact absurd (positive.trans below) (by decide)

/-! ### A later block that is already held -/

/-- The host that holds the second block only. -/
def lateHost (seen : Option (ChainSyncCursor SymbolicDigest)) : AccountHost SymbolicDigest :=
  hostHolding ((∅ : OrderedDict ℕ _).set 2 (sampleChain.block 2)) seen

theorem reconcile_lateHost (seen : Option (ChainSyncCursor SymbolicDigest)) :
    (lateHost seen).reconcileFetchedBlocks (sampleChain.block 2).cursor = lateHost seen := by
  have same : ((lateHost seen).fetchedBlocks.get? (sampleChain.block 2).cursor.height.toNat).any
      (fun block => (sampleChain.block 2).cursor.blockHashHex.nonempty &&
        decide (HashText.digest block.blockHash ≠ (sampleChain.block 2).cursor.blockHashHex)) =
          false := by
    change (true && decide (HashText.digest (sampleChain.block 2).blockHash ≠
      .digest (sampleChain.block 2).blockHash)) = false
    rw [Bool.true_and, decide_eq_false (not_not.mpr rfl)]
  have positive : ¬ (sampleChain.block 2).cursor.height ≤ 0 := by decide
  simp only [AccountHost.reconcileFetchedBlocks, positive, if_false, same]
  rfl

theorem refreshes_late : (Handler.lift SyncOp.embed HostOp.refreshChainState).run.run SyncOp.exec
    (List.replicate 5 (.own (chainEnds 2))) (lateHost none) =
      some (.ok (sampleChain.block 2).cursor, lateHost (some (sampleChain.block 2).cursor)) := by
  rw [← reconcile_lateHost (some (sampleChain.block 2).cursor)]
  rfl

theorem heights_late : heightsToFetch none none (sampleChain.block 2).cursor [2] = [] := by decide

theorem fetches_late : (SyncOp.fetchBlocks []).run.run SyncOp.exec []
    (lateHost (some (sampleChain.block 2).cursor)) =
      some (.ok ([] : List (BlockV2 SymbolicDigest)),
        lateHost (some (sampleChain.block 2).cursor)) := rfl

/-- A host that holds the last of two blocks fetches none. -/
def lateSync : SyncRun SymbolicDigest none :=
  ofFetches refreshes_late answered (heights_late.symm ▸ fetches_late)

/-- The first block stays missing. -/
theorem not_covers_lateSync :
    sampleChain.Sound lateSync.before ∧
      (∀ performed ∈ lateSync.earlier ++ lateSync.later, sampleChain.HandsOver performed) ∧
      (∀ performed ∈ lateSync.later, sampleChain.Reaches lateSync.target performed) ∧
      lateSync.fetched.length = lateSync.heights.length ∧
      ¬ sampleChain.Covers lateSync.target lateSync.after := by
  have later_eq : lateSync.later = [] := performances_nil _ _
  refine ⟨?_, ?_, ?_, congrArg List.length heights_late.symm, ?_⟩
  · intro height block found
    have held : ((∅ : OrderedDict ℕ _).set 2 (sampleChain.block 2)).get? height = some block :=
      found
    rw [OrderedDict.get?_set] at held
    split at held
    · next height_eq =>
        cases held
        rw [height_eq]
    · cases held
  · rw [later_eq, List.append_nil]
    exact handsOver_refreshed 2
  · rw [later_eq]
    exact List.forall_mem_nil _
  · intro covers
    have missing := covers 1 le_rfl (by decide)
    cases missing

end SyncRun

end EZChain
