import EZChain.Host.AccountNetwork
import Mathlib.Data.Finset.Basic

/-!
# Canonical view

Blocks, cursors and announcements of any sender are written into the canonical headers, the fetched
blocks and the last seen chain cursor.  Two runs of a host, one of them without the messages of
strangers, agree on what the configured peers have sent as long as no stranger's message overwrites
it and nothing is looked up where only a stranger's block is held.
-/

namespace EZChain

open Checks Threads

/-! ## Canonical headers of a wallet -/

section Headers

variable {H : Type}

/-- The database with other canonical headers. -/
def LocalWalletDB.withCanonicalHeaders (db : LocalWalletDB H)
    (headers : OrderedDict ℕ (HeaderLite H)) : LocalWalletDB H :=
  { db with canonicalHeaders := headers }

/-- The database with other canonical headers. -/
def StoredWallet.withCanonicalHeaders (store : StoredWallet H)
    (headers : OrderedDict ℕ (HeaderLite H)) : StoredWallet H :=
  { store with tables := store.tables.withCanonicalHeaders headers }

/-- A transaction on another table than the canonical headers. -/
def Transaction.SparesHeaders (transaction : Transaction H) : Prop :=
  ∀ header, transaction ≠ .saveCanonicalHeader header

variable [Crypto H] [DecidableEq H] {headers : OrderedDict ℕ (HeaderLite H)}

theorem LocalWalletDB.commit_withCanonicalHeaders {db : LocalWalletDB H}
    {transaction : Transaction H} (spares : transaction.SparesHeaders) :
    (db.withCanonicalHeaders headers).commit transaction =
      (db.commit transaction).map fun next => next.withCanonicalHeaders headers := by
  cases transaction with
  | saveSidecar sidecar => rfl
  | savePendingBundle context =>
      simp only [LocalWalletDB.commit, map_require_pure]
      rfl
  | deletePendingBundle seq => rfl
  | saveReceipt receipt bundleHash =>
      simp only [LocalWalletDB.commit, map_require_pure]
      rfl
  | saveConfirmedUnit unit => rfl
  | replaceValueRecords records =>
      simp only [LocalWalletDB.commit]
      split_ifs <;> rfl
  | saveAcceptedTransferPackage packageHash => rfl
  | saveCanonicalHeader header => exact absurd rfl (spares header)

theorem LocalWalletDB.onReceiptConfirmed_withCanonicalHeaders {db : LocalWalletDB H}
    {receipt : Receipt H}
    (same : headers.get? receipt.headerLite.height =
      db.canonicalHeaders.get? receipt.headerLite.height) :
    (db.withCanonicalHeaders headers).onReceiptConfirmed receipt =
      db.onReceiptConfirmed receipt := by
  have known : (db.withCanonicalHeaders headers).knowsCanonicalHeader receipt.headerLite =
      db.knowsCanonicalHeader receipt.headerLite := by
    simp only [WalletAccountV2.knowsCanonicalHeader, withCanonicalHeaders, same]
  simp only [LocalWalletDB.onReceiptConfirmed, known]
  rfl

theorem WalletAccountV2.localWitnessForCheckpoint_congr {wallet other : WalletAccountV2 H}
    (same_address : other.address = wallet.address) (same_records : other.records = wallet.records)
    (checkpoint : Checkpoint H) :
    other.localWitnessForCheckpoint checkpoint = wallet.localWitnessForCheckpoint checkpoint := by
  rw [localWitnessForCheckpoint, localWitnessForCheckpoint, same_address, same_records]

theorem WalletAccountV2.trustedCheckpointsForWitness_congr {wallet other : WalletAccountV2 H}
    (same_address : other.address = wallet.address) (same_records : other.records = wallet.records)
    (witness : WitnessV2 H) :
    other.trustedCheckpointsForWitness witness = wallet.trustedCheckpointsForWitness witness := by
  induction witness with
  | genesis value owner chain anchor => rfl
  | checkpoint value owner chain checkpoint =>
      rw [trustedCheckpointsForWitness, trustedCheckpointsForWitness, hasLocalCheckpoint,
        hasLocalCheckpoint, localWitnessForCheckpoint_congr same_address same_records]
  | prior value owner chain acquireTx priorWitness induction => exact induction

theorem WalletAccountV2.rehydrateLocalCheckpointAnchors_congr {wallet other : WalletAccountV2 H}
    (same_address : other.address = wallet.address) (same_records : other.records = wallet.records)
    (witness : WitnessV2 H) :
    other.rehydrateLocalCheckpointAnchors witness =
      wallet.rehydrateLocalCheckpointAnchors witness := by
  induction witness with
  | genesis value owner chain anchor => rfl
  | checkpoint value owner chain checkpoint =>
      rw [rehydrateLocalCheckpointAnchors, rehydrateLocalCheckpointAnchors,
        localWitnessForCheckpoint_congr same_address same_records]
  | prior value owner chain acquireTx priorWitness induction =>
      rw [rehydrateLocalCheckpointAnchors, rehydrateLocalCheckpointAnchors, induction]

theorem LocalWalletDB.receiveTransfer_withCanonicalHeaders {db : LocalWalletDB H}
    {package : TransferPackage H} {context : ValidationContext H} {recordId : String} :
    (db.withCanonicalHeaders headers).receiveTransfer package context recordId =
      db.receiveTransfer package context recordId := by
  have rehydrated := WalletAccountV2.rehydrateLocalCheckpointAnchors_congr
    (show (db.withCanonicalHeaders headers).address = db.address from rfl) rfl
  simp only [LocalWalletDB.receiveTransfer, WalletAccountV2.checkedRecord, rehydrated]
  rfl

end Headers

namespace StoredWallet

variable {H : Type} [Crypto H] [DecidableEq H] {store : StoredWallet H}
  {headers : OrderedDict ℕ (HeaderLite H)}

theorem compactTransaction_withCanonicalHeaders (transaction : Transaction H) :
    (store.withCanonicalHeaders headers).compactTransaction transaction =
      store.compactTransaction transaction := by
  cases transaction <;> rfl

theorem sparesHeaders_of_compactTransaction {transaction compacted : Transaction H}
    (spares : transaction.SparesHeaders)
    (compacts : store.compactTransaction transaction = .ok compacted) :
    compacted.SparesHeaders := by
  rintro header rfl
  cases transaction with
  | saveReceipt receipt bundleHash =>
      simp only [compactTransaction, bind_eq_ok, pure_eq_ok, reduceCtorEq, and_false,
        exists_false] at compacts
  | saveConfirmedUnit unit =>
      simp only [compactTransaction, bind_eq_ok, pure_eq_ok, reduceCtorEq, and_false,
        exists_false] at compacts
  | replaceValueRecords records =>
      simp only [compactTransaction, bind_eq_ok, pure_eq_ok, reduceCtorEq, and_false,
        exists_false] at compacts
  | saveCanonicalHeader header => exact spares header rfl
  | _ => cases compacts

theorem commit_withCanonicalHeaders {transaction : Transaction H}
    (spares : transaction.SparesHeaders) :
    (store.withCanonicalHeaders headers).commit transaction =
      (store.commit transaction).map fun next => next.withCanonicalHeaders headers := by
  simp only [commit, compactTransaction_withCanonicalHeaders]
  cases compacts : store.compactTransaction transaction with
  | error message => rfl
  | ok compacted =>
      change ((store.tables.withCanonicalHeaders headers).commit compacted >>= _) =
        ((store.tables.commit compacted) >>= _).map _
      rw [LocalWalletDB.commit_withCanonicalHeaders
        (sparesHeaders_of_compactTransaction spares compacts)]
      cases store.tables.commit compacted <;> rfl

theorem commitAll_withCanonicalHeaders {transactions : List (Transaction H)}
    (spare : ∀ transaction ∈ transactions, transaction.SparesHeaders) :
    (store.withCanonicalHeaders headers).commitAll transactions =
      ((store.commitAll transactions).1,
        (store.commitAll transactions).2.withCanonicalHeaders headers) := by
  induction transactions generalizing store with
  | nil => rfl
  | cons transaction rest induction =>
      obtain ⟨spares, rest_spare⟩ := List.forall_mem_cons.mp spare
      simp only [commitAll, commit_withCanonicalHeaders spares]
      cases store.commit transaction with
      | error message => rfl
      | ok next => exact induction rest_spare

omit [DecidableEq H] [Crypto H] in
theorem opened_withCanonicalHeaders {wallet other : LocalWalletDB H}
    (same : other.records = wallet.records) :
    (store.withCanonicalHeaders headers).opened other =
      (store.opened wallet).withCanonicalHeaders headers := by
  obtain ⟨⟨_, records, _, _, _⟩, _, _, _, _, _, nodup⟩ := wallet
  obtain ⟨⟨_, others, _, _, _⟩, _, _, _, _, _, nodup⟩ := other
  cases same
  rfl

/-- Reading the records back does not depend on the headers. -/
theorem reloadState_withCanonicalHeaders :
    (store.withCanonicalHeaders headers).reloadState =
      store.reloadState.map fun wallet => wallet.withCanonicalHeaders headers := by
  have listed_eq : (store.withCanonicalHeaders headers).listValueRecords =
      store.listValueRecords := rfl
  unfold reloadState
  split
  · next message listed =>
      split
      · next other other_listed =>
          rw [← listed_eq, listed] at other_listed
          cases other_listed
          rfl
      · next records other_listed =>
          rw [← listed_eq, listed] at other_listed
          cases other_listed
  · next records listed =>
      split
      · next other other_listed =>
          rw [← listed_eq, listed] at other_listed
          cases other_listed
      · next others other_listed =>
          rw [← listed_eq, listed] at other_listed
          cases other_listed
          rfl

theorem readReceipt_withCanonicalHeaders (message : ReceiptMessage H) :
    (store.withCanonicalHeaders headers).readReceipt message =
      ((store.readReceipt message).1,
        (store.readReceipt message).2.withCanonicalHeaders headers) := by
  refine Prod.ext ?_ ?_
  · simp only [readReceipt, materializeReceiptFromBatch]
    split
    · rfl
    · split_ifs
      · rfl
      · split
        · rfl
        · split
          · rfl
          · split_ifs <;> rfl
  · rw [readReceipt_snd, readReceipt_snd, afterBatch, afterBatch]
    cases message.savedBatch <;> rfl

theorem planReceipt_withCanonicalHeaders {wallet other : LocalWalletDB H} {receipt : Receipt H}
    (same_records : other.records = wallet.records)
    (same_header : headers.get? receipt.headerLite.height =
      store.tables.canonicalHeaders.get? receipt.headerLite.height) :
    (store.withCanonicalHeaders headers).planReceipt other receipt =
      store.planReceipt wallet receipt := by
  have opened_eq : (store.withCanonicalHeaders headers).opened other =
      (store.opened wallet).withCanonicalHeaders headers :=
    opened_withCanonicalHeaders same_records
  have known : ((store.opened wallet).withCanonicalHeaders headers).knowsCanonicalHeader
      receipt.headerLite = (store.opened wallet).knowsCanonicalHeader receipt.headerLite := by
    simp only [WalletAccountV2.knowsCanonicalHeader, LocalWalletDB.withCanonicalHeaders,
      same_header]
    rfl
  have planned := LocalWalletDB.onReceiptConfirmed_withCanonicalHeaders
    (show headers.get? receipt.headerLite.height =
      (store.opened wallet).canonicalHeaders.get? receipt.headerLite.height from same_header)
  rw [planReceipt, planReceipt, opened_eq, known, planned]
  rfl

theorem spareHeaders_of_planReceipt {wallet : LocalWalletDB H} {receipt : Receipt H}
    {unit : ConfirmedBundleUnit H} {transactions : List (Transaction H)}
    (planned : store.planReceipt wallet receipt = .ok (unit, transactions)) :
    ∀ transaction ∈ transactions, transaction.SparesHeaders := by
  obtain ⟨_, context, _, _, rfl⟩ := planReceipt_eq_ok.mp planned
  simp [LocalWalletDB.receiptTransactions, Transaction.SparesHeaders]

/-- An applied receipt depends on the headers only in whether its own header is known. -/
theorem onReceiptConfirmed_withCanonicalHeaders {wallet other : LocalWalletDB H}
    {receipt : Receipt H} (same_records : other.records = wallet.records)
    (same_header : headers.get? receipt.headerLite.height =
      store.tables.canonicalHeaders.get? receipt.headerLite.height) :
    (store.withCanonicalHeaders headers).onReceiptConfirmed other receipt =
      ((store.onReceiptConfirmed wallet receipt).1,
        (store.onReceiptConfirmed wallet receipt).2.withCanonicalHeaders headers) := by
  rw [onReceiptConfirmed, onReceiptConfirmed,
    planReceipt_withCanonicalHeaders same_records same_header]
  cases planned : store.planReceipt wallet receipt with
  | error message => rfl
  | ok plan =>
      obtain ⟨unit, transactions⟩ := plan
      simp only [commitAll_withCanonicalHeaders (spareHeaders_of_planReceipt planned)]
      cases store.commitAll transactions with
      | mk committed after =>
          cases committed with
          | error message => rfl
          | ok done =>
              simp only [reloadState_withCanonicalHeaders]
              cases after.reloadState <;> rfl

theorem canonicalHeaders_onReceiptConfirmed (store : StoredWallet H) (wallet : LocalWalletDB H)
    (receipt : Receipt H) :
    (store.onReceiptConfirmed wallet receipt).2.tables.canonicalHeaders =
      store.tables.canonicalHeaders := by
  have same : (store.withCanonicalHeaders store.tables.canonicalHeaders).onReceiptConfirmed wallet
      receipt = _ := onReceiptConfirmed_withCanonicalHeaders rfl rfl
  exact congrArg (fun confirmed => confirmed.2.tables.canonicalHeaders) same

theorem canonicalHeaders_commitAll (store : StoredWallet H) {transactions : List (Transaction H)}
    (spare : ∀ transaction ∈ transactions, transaction.SparesHeaders) :
    (store.commitAll transactions).2.tables.canonicalHeaders = store.tables.canonicalHeaders := by
  have same : (store.withCanonicalHeaders store.tables.canonicalHeaders).commitAll transactions =
      _ := commitAll_withCanonicalHeaders spare
  exact congrArg (fun committed => committed.2.tables.canonicalHeaders) same

end StoredWallet

/-! ## Hosts that agree outside some heights -/

theorem OrderedDict.get?_set_agree {ν : Type} {heights : Finset ℕ} {dict other : OrderedDict ℕ ν}
    (agree : ∀ height ∉ heights, other.get? height = dict.get? height) (key : ℕ) (value : ν) :
    ∀ height ∉ heights.erase key,
      (other.set key value).get? height = (dict.set key value).get? height := by
  intro height outside
  rw [OrderedDict.get?_set, OrderedDict.get?_set]
  by_cases same : key = height
  · rw [if_pos same, if_pos same]
  · rw [if_neg same, if_neg same]
    apply agree height
    intro member
    exact outside (Finset.mem_erase.mpr ⟨Ne.symm same, member⟩)

namespace AccountHost

variable {H : Type}

/-- The host with other canonical headers and fetched blocks. -/
def withView (host : AccountHost H) (headers : OrderedDict ℕ (HeaderLite H))
    (memory : LocalWalletDB H) (blocks : OrderedDict ℕ (BlockV2 H)) : AccountHost H :=
  { host with
    store := host.store.withCanonicalHeaders headers
    memory := memory
    fetchedBlocks := blocks }

/-- Two hosts that differ only in the headers and blocks at some heights. -/
inductive AgreeOutside (heights : Finset ℕ) (left : AccountHost H) : AccountHost H → Prop where
  | view {headers : OrderedDict ℕ (HeaderLite H)} {memory : LocalWalletDB H}
      {blocks : OrderedDict ℕ (BlockV2 H)} (records : memory.records = left.memory.records)
      (headers_eq : ∀ height ∉ heights,
        headers.get? height = left.store.tables.canonicalHeaders.get? height)
      (blocks_eq : ∀ height ∉ heights, blocks.get? height = left.fetchedBlocks.get? height) :
      AgreeOutside heights left (left.withView headers memory blocks)

variable {heights : Finset ℕ} {left right : AccountHost H}

theorem AgreeOutside.refl (heights : Finset ℕ) (host : AccountHost H) :
    AgreeOutside heights host host :=
  .view rfl (fun _ _ => rfl) fun _ _ => rfl

theorem AgreeOutside.promoteConsensusPeer (agree : AgreeOutside heights left right)
    (peerId : String) :
    AgreeOutside heights (left.promoteConsensusPeer peerId)
      (right.promoteConsensusPeer peerId) := by
  obtain ⟨records, headers_eq, blocks_eq⟩ := agree
  exact .view records headers_eq blocks_eq

/-- A block that both hosts hold is the same for both. -/
theorem AgreeOutside.holdBlock (agree : AgreeOutside heights left right) (block : BlockV2 H) :
    AgreeOutside (heights.erase block.header.height) (left.holdBlock block)
      (right.holdBlock block) := by
  obtain ⟨records, headers_eq, blocks_eq⟩ := agree
  exact .view records (OrderedDict.get?_set_agree headers_eq _ _)
    (OrderedDict.get?_set_agree blocks_eq _ _)

theorem AgreeOutside.observeCanonicalBlock (agree : AgreeOutside heights left right)
    (block : BlockV2 H) :
    AgreeOutside heights { left with store := left.store.observeCanonicalBlock block }
      { right with store := right.store.observeCanonicalBlock block } := by
  obtain ⟨records, headers_eq, blocks_eq⟩ := agree
  refine .view records ?_ blocks_eq
  intro height outside
  apply OrderedDict.get?_set_agree headers_eq
  exact fun member => outside (Finset.mem_of_mem_erase member)

theorem AgreeOutside.holdOwn (agree : AgreeOutside heights left right) (block : BlockV2 H) :
    AgreeOutside (insert block.header.height heights) (left.holdBlock block) right := by
  obtain ⟨records, headers_eq, blocks_eq⟩ := agree
  rename_i headers memory blocks
  have same : left.withView headers memory blocks =
      (left.holdBlock block).withView headers memory blocks := rfl
  rw [same]
  refine .view records ?_ ?_
  · intro height outside
    rw [Finset.mem_insert, not_or] at outside
    exact (headers_eq height outside.2).trans
      (OrderedDict.get?_set_of_ne _ (Ne.symm outside.1) _).symm
  · intro height outside
    rw [Finset.mem_insert, not_or] at outside
    exact (blocks_eq height outside.2).trans
      (OrderedDict.get?_set_of_ne _ (Ne.symm outside.1) _).symm

theorem AgreeOutside.getFetchedBlock (agree : AgreeOutside heights left right) {height : ℕ}
    (outside : height ∉ heights) :
    right.fetchedBlocks.get? height = left.fetchedBlocks.get? height := by
  obtain ⟨_, _, blocks_eq⟩ := agree
  exact blocks_eq height outside

variable [DecidableEq H]

theorem AgreeOutside.reconcileFetchedBlocks (agree : AgreeOutside heights left right)
    {cursor : ChainSyncCursor H} (looks : 0 < cursor.height → cursor.height.toNat ∉ heights) :
    AgreeOutside heights (left.reconcileFetchedBlocks cursor)
      (right.reconcileFetchedBlocks cursor) := by
  obtain ⟨records, headers_eq, blocks_eq⟩ := agree
  unfold AccountHost.reconcileFetchedBlocks
  split_ifs with at_start
  · exact .view records headers_eq fun _ _ => rfl
  · have head_eq := blocks_eq _ (looks (not_le.mp at_start))
    simp only [withView, head_eq]
    refine .view records headers_eq ?_
    intro height outside
    split_ifs
    · rfl
    · rw [OrderedDict.get?_filterKeys, OrderedDict.get?_filterKeys, blocks_eq height outside]

theorem AgreeOutside.knowsCanonicalHeader (agree : AgreeOutside heights left right)
    {header : HeaderLite H} (outside : header.height ∉ heights) :
    right.store.tables.knowsCanonicalHeader header =
      left.store.tables.knowsCanonicalHeader header := by
  obtain ⟨_, headers_eq, _⟩ := agree
  have same := headers_eq header.height outside
  simp only [WalletAccountV2.knowsCanonicalHeader, withView, StoredWallet.withCanonicalHeaders,
    LocalWalletDB.withCanonicalHeaders, same]

variable [Crypto H]

theorem AgreeOutside.reloadState (agree : AgreeOutside heights left right) :
    left.reloadState.1 = right.reloadState.1 ∧
      AgreeOutside heights left.reloadState.2 right.reloadState.2 := by
  obtain ⟨records, headers_eq, blocks_eq⟩ := agree
  unfold AccountHost.reloadState
  simp only [withView, StoredWallet.reloadState_withCanonicalHeaders]
  cases left.store.reloadState with
  | error message => exact ⟨rfl, .view records headers_eq blocks_eq⟩
  | ok wallet => exact ⟨rfl, .view rfl headers_eq blocks_eq⟩

theorem AgreeOutside.readReceipt (agree : AgreeOutside heights left right)
    (message : ReceiptMessage H) :
    (left.store.readReceipt message).1 = (right.store.readReceipt message).1 ∧
      AgreeOutside heights { left with store := (left.store.readReceipt message).2 }
        { right with store := (right.store.readReceipt message).2 } := by
  obtain ⟨records, headers_eq, blocks_eq⟩ := agree
  simp only [withView, StoredWallet.readReceipt_withCanonicalHeaders, true_and]
  refine .view records ?_ blocks_eq
  rw [StoredWallet.readReceipt_snd, StoredWallet.tables_afterBatch]
  exact headers_eq

theorem AgreeOutside.onReceiptConfirmed (agree : AgreeOutside heights left right)
    {receipt : Receipt H} (outside : receipt.headerLite.height ∉ heights) :
    (left.onReceiptConfirmed receipt).1 = (right.onReceiptConfirmed receipt).1 ∧
      AgreeOutside heights (left.onReceiptConfirmed receipt).2
        (right.onReceiptConfirmed receipt).2 := by
  obtain ⟨records, headers_eq, blocks_eq⟩ := agree
  have kept := left.store.canonicalHeaders_onReceiptConfirmed left.memory receipt
  unfold AccountHost.onReceiptConfirmed
  simp only [withView, StoredWallet.onReceiptConfirmed_withCanonicalHeaders records
    (headers_eq _ outside)]
  cases confirmed : left.store.onReceiptConfirmed left.memory receipt with
  | mk result after =>
      rw [confirmed] at kept
      have after_headers_eq : ∀ height ∉ heights, _ = after.tables.canonicalHeaders.get? height :=
        fun height outside => (headers_eq height outside).trans (congrArg (·.get? height) kept.symm)
      cases result with
      | error message => exact ⟨rfl, .view records after_headers_eq blocks_eq⟩
      | ok unit =>
          simp only [StoredWallet.reloadState_withCanonicalHeaders, true_and]
          refine .view ?_ after_headers_eq blocks_eq
          cases after.reloadState with
          | error message => exact records
          | ok wallet => rfl

theorem planTransfer_withView {headers : OrderedDict ℕ (HeaderLite H)} {memory : LocalWalletDB H}
    {blocks : OrderedDict ℕ (BlockV2 H)} (records : memory.records = left.memory.records)
    (package : TransferPackage H) (recordId : String) :
    (left.withView headers memory blocks).planTransfer package recordId =
      left.planTransfer package recordId := by
  have opened_eq : (left.store.withCanonicalHeaders headers).opened memory =
      (left.store.opened left.memory).withCanonicalHeaders headers :=
    StoredWallet.opened_withCanonicalHeaders records
  have context_eq : V2AccountHost.buildValidatorForPackage
      ⟨((left.store.opened left.memory).withCanonicalHeaders headers).toWalletAccountV2, []⟩
        package =
        V2AccountHost.buildValidatorForPackage
          ⟨(left.store.opened left.memory).toWalletAccountV2, []⟩ package := by
    have trusted := WalletAccountV2.trustedCheckpointsForWitness_congr
      (show ((left.store.opened left.memory).withCanonicalHeaders headers).address =
        (left.store.opened left.memory).address from rfl) rfl package.witnessV2
    simp only [V2AccountHost.buildValidatorForPackage, trusted]
  simp only [planTransfer, withView, opened_eq, context_eq,
    LocalWalletDB.receiveTransfer_withCanonicalHeaders]

theorem spareHeaders_of_planTransfer {package : TransferPackage H} {recordId : String}
    {record : LocalValueRecord H} {transactions : List (Transaction H)}
    (planned : left.planTransfer package recordId = .ok (record, transactions)) :
    ∀ transaction ∈ transactions, transaction.SparesHeaders := by
  simp only [planTransfer, bind_eq_ok] at planned
  obtain ⟨context, _, planned⟩ := planned
  obtain ⟨newest, _, rfl, rfl⟩ := LocalWalletDB.receiveTransfer_eq_ok.mp planned
  intro transaction member header same
  subst same
  simp [LocalWalletDB.receiveTransactions] at member

theorem AgreeOutside.receiveTransfer (agree : AgreeOutside heights left right)
    (package : TransferPackage H) (recordId : String) :
    (left.receiveTransfer package recordId).1 = (right.receiveTransfer package recordId).1 ∧
      AgreeOutside heights (left.receiveTransfer package recordId).2
        (right.receiveTransfer package recordId).2 := by
  obtain ⟨records, headers_eq, blocks_eq⟩ := agree
  unfold AccountHost.receiveTransfer
  rw [planTransfer_withView records]
  cases planned : left.planTransfer package recordId with
  | error message => exact ⟨rfl, .view records headers_eq blocks_eq⟩
  | ok plan =>
      obtain ⟨record, transactions⟩ := plan
      have spare := spareHeaders_of_planTransfer planned
      have spare_first : ∀ transaction ∈ transactions.dropLast, transaction.SparesHeaders :=
        fun transaction member => spare transaction (List.mem_of_mem_dropLast member)
      have spare_last : ∀ transaction ∈ transactions.getLast?.toList, transaction.SparesHeaders :=
        fun transaction member =>
          spare transaction (List.mem_of_getLast? (Option.mem_toList.mp member))
      have kept := left.store.canonicalHeaders_commitAll spare_first
      simp only [withView, StoredWallet.commitAll_withCanonicalHeaders spare_first]
      cases committed : left.store.commitAll transactions.dropLast with
      | mk result persisted =>
          rw [committed] at kept
          have persisted_headers_eq : ∀ height ∉ heights,
              _ = persisted.tables.canonicalHeaders.get? height := fun height outside =>
            (headers_eq height outside).trans (congrArg (·.get? height) kept.symm)
          cases result with
          | error message => exact ⟨rfl, .view records persisted_headers_eq blocks_eq⟩
          | ok done =>
              simp only [StoredWallet.reloadState_withCanonicalHeaders]
              cases persisted.reloadState with
              | error message => exact ⟨rfl, .view records persisted_headers_eq blocks_eq⟩
              | ok wallet =>
                  have kept_last := persisted.canonicalHeaders_commitAll spare_last
                  simp only [Except.map, StoredWallet.commitAll_withCanonicalHeaders spare_last,
                    true_and]
                  refine .view rfl ?_ blocks_eq
                  rw [kept_last]
                  exact persisted_headers_eq

/-- The host holds a block: it was fetched, and its header is the canonical one of its height. -/
def Holds (host : AccountHost H) (block : BlockV2 H) : Prop :=
  host.fetchedBlocks.get? block.header.height = some block ∧
    host.store.tables.canonicalHeaders.get? block.header.height =
      some ⟨block.header.height, block.blockHash, block.header.stateRoot⟩

instance (host : AccountHost H) (block : BlockV2 H) : Decidable (host.Holds block) :=
  inferInstanceAs (Decidable (_ ∧ _))

omit [Crypto H] [DecidableEq H] in
/-- Nothing changes when the host gets a block that it holds. -/
theorem AgreeOutside.holdAgain (agree : AgreeOutside heights left right) {block : BlockV2 H}
    (holds : left.Holds block) : AgreeOutside heights (left.holdBlock block) right := by
  obtain ⟨records, headers_eq, blocks_eq⟩ := agree
  obtain ⟨block_held, header_held⟩ := holds
  rename_i headers memory blocks
  have same : left.withView headers memory blocks =
      (left.holdBlock block).withView headers memory blocks := rfl
  rw [same]
  refine .view records ?_ ?_
  · intro height outside
    rw [headers_eq height outside]
    change _ = (left.store.tables.canonicalHeaders.set _ _).get? height
    rw [OrderedDict.get?_set]
    split_ifs with at_height
    · rw [← at_height, header_held]
    · rfl
  · intro height outside
    rw [blocks_eq height outside]
    change _ = (left.fetchedBlocks.set _ _).get? height
    rw [OrderedDict.get?_set]
    split_ifs with at_height
    · rw [← at_height, block_held]
    · rfl

end AccountHost

/-! ## Strangers -/

section Strangers

variable {H : Type}

/-- The messages that write the canonical view. -/
def AccountMessage.writesView : AccountMessage H → Bool
  | .blockFetchResponse _ _ => true
  | .chainStateResponse _ _ => true
  | .blockAnnounce _ _ _ => true
  | _ => false

/-- A message that writes the canonical view, and is not from a configured consensus peer. -/
def AccountEnvelope.IsStrange (configured : List String) (envelope : AccountEnvelope H) : Prop :=
  envelope.senderId ∉ configured ∧ envelope.message.writesView = true

instance (configured : List String) :
    DecidablePred (AccountEnvelope.IsStrange (H := H) configured) :=
  fun _ => inferInstanceAs (Decidable (_ ∧ _))

/-- A host with two history variables that no handler reads. -/
structure WatchedHost (H : Type) where
  host : AccountHost H
  /-- The heights for which a configured peer's block was received. -/
  known : Finset ℕ
  /-- The heights at which a block of a stranger is held. -/
  strange : Finset ℕ

/-- An event of a host: an envelope arrives, or the handler of an earlier one goes on. -/
abbrev AccountEvent (H : Type) : Type := Threads.Event (AccountEnvelope H) (HostInput H)

/-- A watched host with its handlers. -/
abbrev AccountRun (H : Type) : Type 1 :=
  Threads.State (HostOp H) (AccountEnvelope H) (Except String AccountReply) (WatchedHost H)

namespace WatchedHost

variable [Crypto H] [DecidableEq H] (configured : List String)

/-- The history variables after an operation. -/
def watch (watched : WatchedHost H) (envelope : AccountEnvelope H) :
    {β : Type} → HostOp H β → Finset ℕ × Finset ℕ
  | _, .holdBlock block =>
      if envelope.IsStrange configured then
        if watched.host.Holds block then (watched.known, watched.strange)
        else (watched.known, insert block.header.height watched.strange)
      else
        (insert block.header.height watched.known, watched.strange.erase block.header.height)
  | _, _ => (watched.known, watched.strange)

/-- Perform an operation of a handler. -/
def exec {β : Type} (envelope : AccountEnvelope H) (operation : HostOp H β) (input : HostInput H)
    (watched : WatchedHost H) : β × WatchedHost H :=
  let performed := watched.host.exec input operation
  let heights := watched.watch configured envelope operation
  (performed.1, ⟨performed.2, heights.1, heights.2⟩)

/-- One event. -/
def step : AccountRun H → AccountEvent H → AccountRun H :=
  Threads.step (fun envelope => (HostOp.handleEnvelope envelope).run) (exec configured)

/-- An operation for a stranger overwrites nothing. -/
def Harmless (watched : WatchedHost H) : {β : Type} → HostOp H β → Prop
  | _, .holdBlock block =>
      block.header.height ∉ watched.known ∨ watched.host.Holds block
  | _, .seeChain cursor => watched.host.lastSeenChain = some cursor
  | _, .promoteConsensusPeer peerId =>
      normalizePeerIds (peerId :: watched.host.consensusPeerIds) = watched.host.consensusPeerIds
  | _, .send _ _ => True
  | _, .consensusPeerIds => True
  | _, .lastSeenChain => True
  | _, .wantedReceipts _ _ => True
  | _, .hasReceipt _ => True
  -- The handlers of these messages perform nothing else.
  | _, _ => False

/-- Another operation does not look where only a block of a stranger is held. -/
def LooksElsewhere (watched : WatchedHost H) : {β : Type} → HostOp H β → Prop
  | _, .getFetchedBlock height => height ∉ watched.strange
  | _, .knowsCanonicalHeader header => header.height ∉ watched.strange
  | _, .onReceiptConfirmed receipt => receipt.headerLite.height ∉ watched.strange
  | _, .reconcileFetchedBlocks cursor =>
      0 < cursor.height → cursor.height.toNat ∉ watched.strange
  | _, _ => True

/-- An operation keeps what the configured peers have sent. -/
def Keeps {β : Type} (envelope : AccountEnvelope H) (operation : HostOp H β) (_ : HostInput H)
    (watched : WatchedHost H) : Prop :=
  if envelope.IsStrange configured then watched.Harmless operation
  else watched.LooksElsewhere operation

instance (watched : WatchedHost H) :
    ∀ {β : Type} (operation : HostOp H β), Decidable (watched.Harmless operation)
  | _, .holdBlock block =>
      inferInstanceAs (Decidable (block.header.height ∉ watched.known ∨ watched.host.Holds block))
  | _, .seeChain cursor => inferInstanceAs (Decidable (watched.host.lastSeenChain = some cursor))
  | _, .promoteConsensusPeer peerId =>
      inferInstanceAs (Decidable (normalizePeerIds (peerId :: watched.host.consensusPeerIds) =
        watched.host.consensusPeerIds))
  | _, .send _ _ => isTrue trivial
  | _, .consensusPeerIds => isTrue trivial
  | _, .lastSeenChain => isTrue trivial
  | _, .wantedReceipts _ _ => isTrue trivial
  | _, .hasReceipt _ => isTrue trivial
  | _, .reconcileFetchedBlocks _ => isFalse not_false
  | _, .getFetchedBlock _ => isFalse not_false
  | _, .reloadState => isFalse not_false
  | _, .readReceipt _ => isFalse not_false
  | _, .autoAcceptReceipts => isFalse not_false
  | _, .knowsCanonicalHeader _ => isFalse not_false
  | _, .observeCanonicalBlock _ => isFalse not_false
  | _, .onReceiptConfirmed _ => isFalse not_false
  | _, .receiveTransfer _ => isFalse not_false

instance (watched : WatchedHost H) :
    ∀ {β : Type} (operation : HostOp H β), Decidable (watched.LooksElsewhere operation)
  | _, .getFetchedBlock height => inferInstanceAs (Decidable (height ∉ watched.strange))
  | _, .knowsCanonicalHeader header =>
      inferInstanceAs (Decidable (header.height ∉ watched.strange))
  | _, .onReceiptConfirmed receipt =>
      inferInstanceAs (Decidable (receipt.headerLite.height ∉ watched.strange))
  | _, .reconcileFetchedBlocks cursor =>
      inferInstanceAs (Decidable (0 < cursor.height → cursor.height.toNat ∉ watched.strange))
  | _, .send _ _ => isTrue trivial
  | _, .consensusPeerIds => isTrue trivial
  | _, .promoteConsensusPeer _ => isTrue trivial
  | _, .lastSeenChain => isTrue trivial
  | _, .seeChain _ => isTrue trivial
  | _, .holdBlock _ => isTrue trivial
  | _, .wantedReceipts _ _ => isTrue trivial
  | _, .hasReceipt _ => isTrue trivial
  | _, .reloadState => isTrue trivial
  | _, .readReceipt _ => isTrue trivial
  | _, .autoAcceptReceipts => isTrue trivial
  | _, .observeCanonicalBlock _ => isTrue trivial
  | _, .receiveTransfer _ => isTrue trivial

instance (β : Type) (envelope : AccountEnvelope H) (operation : HostOp H β) (input : HostInput H)
    (watched : WatchedHost H) : Decidable (Keeps configured envelope operation input watched) :=
  inferInstanceAs (Decidable (if envelope.IsStrange configured then watched.Harmless operation
    else watched.LooksElsewhere operation))

/-- Two runs agree on the heights that are known from configured peers, and on the cursor. -/
structure SameView (left right : WatchedHost H) : Prop where
  header : ∀ height ∈ left.known, right.host.store.tables.canonicalHeaders.get? height =
    left.host.store.tables.canonicalHeaders.get? height
  block : ∀ height ∈ left.known,
    right.host.fetchedBlocks.get? height = left.host.fetchedBlocks.get? height
  lastSeenChain : right.host.lastSeenChain = left.host.lastSeenChain

/-- The hosts agree outside the heights where a block of a stranger is held, and these are not
known from configured peers. -/
structure Agree (left right : WatchedHost H) : Prop where
  outside : left.host.AgreeOutside left.strange right.host
  apart : ∀ height ∈ left.known, height ∉ left.strange

variable {configured : List String} {left right : WatchedHost H}

omit [Crypto H] [DecidableEq H] in
theorem Agree.sameView (agree : Agree left right) : SameView left right := by
  obtain ⟨outside, apart⟩ := agree
  obtain ⟨host, known, strange⟩ := left
  obtain ⟨other, _, _⟩ := right
  obtain ⟨_, headers_eq, blocks_eq⟩ := outside
  exact ⟨fun height member => headers_eq height (apart height member),
    fun height member => blocks_eq height (apart height member), rfl⟩

/-- A handler that both runs have does the same in both. -/
theorem Agree.common (agree : Agree left right) {β : Type} {envelope : AccountEnvelope H}
    {operation : HostOp H β} {input : HostInput H} (common : ¬ envelope.IsStrange configured)
    (elsewhere : left.LooksElsewhere operation) :
    (exec configured envelope operation input left).1 =
        (exec configured envelope operation input right).1 ∧
      Agree (exec configured envelope operation input left).2
        (exec configured envelope operation input right).2 := by
  obtain ⟨outside, apart⟩ := agree
  obtain ⟨host, known, strange⟩ := left
  obtain ⟨other, _, _⟩ := right
  cases operation with
  | send peerId request => exact ⟨rfl, outside, apart⟩
  | consensusPeerIds =>
      obtain ⟨records, headers_eq, blocks_eq⟩ := outside
      exact ⟨rfl, .view records headers_eq blocks_eq, apart⟩
  | promoteConsensusPeer peerId =>
      exact ⟨rfl, outside.promoteConsensusPeer peerId, apart⟩
  | lastSeenChain =>
      obtain ⟨records, headers_eq, blocks_eq⟩ := outside
      exact ⟨rfl, .view records headers_eq blocks_eq, apart⟩
  | seeChain cursor =>
      obtain ⟨records, headers_eq, blocks_eq⟩ := outside
      exact ⟨rfl, .view records headers_eq blocks_eq, apart⟩
  | reconcileFetchedBlocks cursor =>
      exact ⟨rfl, outside.reconcileFetchedBlocks elsewhere, apart⟩
  | holdBlock block =>
      refine ⟨rfl, ?_⟩
      simp only [exec, watch, if_neg common]
      refine ⟨outside.holdBlock block, ?_⟩
      intro height height_known strange_there
      obtain ⟨ne_height, strange_before⟩ := Finset.mem_erase.mp strange_there
      rcases Finset.mem_insert.mp height_known with at_height | known_before
      · exact ne_height at_height
      · exact apart height known_before strange_before
  | getFetchedBlock height =>
      exact ⟨(outside.getFetchedBlock elsewhere).symm, outside, apart⟩
  | wantedReceipts senderId block =>
      obtain ⟨records, headers_eq, blocks_eq⟩ := outside
      exact ⟨rfl, .view records headers_eq blocks_eq, apart⟩
  | hasReceipt seq =>
      obtain ⟨records, headers_eq, blocks_eq⟩ := outside
      exact ⟨rfl, .view records headers_eq blocks_eq, apart⟩
  | reloadState =>
      obtain ⟨same, reloaded⟩ := outside.reloadState
      exact ⟨same, reloaded, apart⟩
  | readReceipt message =>
      obtain ⟨same, read⟩ := outside.readReceipt message
      exact ⟨same, read, apart⟩
  | autoAcceptReceipts =>
      obtain ⟨records, headers_eq, blocks_eq⟩ := outside
      exact ⟨rfl, .view records headers_eq blocks_eq, apart⟩
  | knowsCanonicalHeader header =>
      exact ⟨(outside.knowsCanonicalHeader elsewhere).symm, outside, apart⟩
  | observeCanonicalBlock block =>
      exact ⟨rfl, outside.observeCanonicalBlock block, apart⟩
  | onReceiptConfirmed receipt =>
      obtain ⟨same, confirmed⟩ := outside.onReceiptConfirmed elsewhere
      exact ⟨same, confirmed, apart⟩
  | receiveTransfer package =>
      obtain ⟨same, received⟩ := outside.receiveTransfer package input.recordId
      exact ⟨same, received, apart⟩

/-- A handler of a stranger's message changes nothing that is known. -/
theorem Agree.own (agree : Agree left right) {β : Type} {envelope : AccountEnvelope H}
    {operation : HostOp H β} {input : HostInput H} (is_strange : envelope.IsStrange configured)
    (harmless : left.Harmless operation) :
    Agree (exec configured envelope operation input left).2 right := by
  obtain ⟨outside, apart⟩ := agree
  obtain ⟨host, known, strange⟩ := left
  obtain ⟨other, _, _⟩ := right
  cases operation with
  | holdBlock block =>
      simp only [exec, watch, if_pos is_strange]
      split_ifs with holds
      · exact ⟨outside.holdAgain holds, apart⟩
      · have unknown : block.header.height ∉ known := harmless.resolve_right holds
        refine ⟨outside.holdOwn block, ?_⟩
        intro height height_known strange_there
        rcases Finset.mem_insert.mp strange_there with rfl | strange_before
        · exact unknown height_known
        · exact apart height height_known strange_before
  | seeChain cursor =>
      have same : { host with lastSeenChain := some cursor } = host := by
        rw [← show host.lastSeenChain = some cursor from harmless]
      have still : AccountHost.AgreeOutside strange { host with lastSeenChain := some cursor }
          other := by
        rw [same]
        exact outside
      exact ⟨still, apart⟩
  | promoteConsensusPeer peerId =>
      have same : host.promoteConsensusPeer peerId = host := by
        rw [AccountHost.promoteConsensusPeer,
          show normalizePeerIds (peerId :: host.consensusPeerIds) = _ from harmless]
      have still : (host.promoteConsensusPeer peerId).AgreeOutside strange other := by
        rw [same]
        exact outside
      exact ⟨still, apart⟩
  | send peerId request => exact ⟨outside, apart⟩
  | consensusPeerIds => exact ⟨outside, apart⟩
  | lastSeenChain => exact ⟨outside, apart⟩
  | wantedReceipts senderId block => exact ⟨outside, apart⟩
  | hasReceipt seq => exact ⟨outside, apart⟩
  | _ => exact harmless.elim

/-- In every run in which no stranger's message overwrites what a configured peer has sent or the
cursor, and nothing is looked up where only a stranger's block is held, the run without the
strangers' messages has the same canonical view. -/
theorem sameView_of_keeps (host : AccountHost H) (known : Finset ℕ)
    (events : List (AccountEvent H)) :
    let initial : AccountRun H := ⟨⟨host, known, ∅⟩, []⟩
    let step := step host.consensusPeerIds
    Runs.Along step (Threads.Performs (Keeps host.consensusPeerIds)) initial events →
      ∀ earlier, earlier <+: events →
        SameView (earlier.foldl step initial).shared
          ((Threads.without (AccountEnvelope.IsStrange host.consensusPeerIds) earlier).foldl step
            initial).shared := by
  intro initial step along earlier begins
  have respects : Threads.Respects (exec host.consensusPeerIds)
      (AccountEnvelope.IsStrange (H := H) host.consensusPeerIds) Agree
      (Keeps host.consensusPeerIds) := by
    constructor
    · intro β envelope operation input before other common agree kept
      rw [Keeps, if_neg common] at kept
      exact agree.common common kept
    · intro β envelope operation input before other strange agree kept
      rw [Keeps, if_pos strange] at kept
      exact agree.own strange kept
  obtain ⟨rest, rfl⟩ := begins
  have initially : Threads.Alongside (AccountEnvelope.IsStrange host.consensusPeerIds) Agree
      initial initial :=
    ⟨⟨.refl _ _, fun _ _ => Finset.notMem_empty _⟩, rfl⟩
  have related := initially.run respects earlier (Runs.along_append.mp along).1
  exact related.shared.sameView

end WatchedHost

end Strangers

namespace WatchedHost

open SymbolicDigest

/-- A host on an empty database, with one configured peer. -/
def freshHost : AccountHost SymbolicDigest where
  store := .new alice (filled 0)
  memory := .new alice (filled 0)
  fetchedBlocks := ∅
  lastSeenChain := none
  consensusPeerIds := ["consensus-0"]
  autoAcceptReceipts := true
  receiptPullPeers := []
  suppressReceiptPull := false

/-- A block at height one that nobody has built. -/
def forgedBlock : BlockV2 SymbolicDigest :=
  { genesis.peerBlock 1 firstEntry with blockHash := filled 9 }

/-- An announcement arrives, and its handler runs to the end. -/
def announced (index : ℕ) (senderId : String) (block : BlockV2 SymbolicDigest) :
    List (AccountEvent SymbolicDigest) :=
  .deliver ⟨senderId, .blockAnnounce (some block) (some block.header.height)
    (.digest block.blockHash)⟩ :: List.replicate 3 (.resume index ⟨.error "", ""⟩)

/-- The first block from the configured peer, then a forged one from somebody else. -/
def forgedAnnouncement : List (AccountEvent SymbolicDigest) :=
  announced 0 "consensus-0" (genesis.peerBlock 1 firstEntry) ++
    announced 1 "mallory" forgedBlock

/-- The forged block replaces the header, the block and the cursor that the configured peer sent. -/
theorem not_sameView_forgedAnnouncement :
    let initial : AccountRun SymbolicDigest := ⟨⟨freshHost, ∅, ∅⟩, []⟩
    let step := step freshHost.consensusPeerIds
    ¬ SameView (forgedAnnouncement.foldl step initial).shared
      ((Threads.without (AccountEnvelope.IsStrange freshHost.consensusPeerIds)
        forgedAnnouncement).foldl step initial).shared := by
  intro initial step same
  have known : 1 ∈ (forgedAnnouncement.foldl step initial).shared.known := by decide +kernel
  have differs : ((Threads.without (AccountEnvelope.IsStrange freshHost.consensusPeerIds)
      forgedAnnouncement).foldl step initial).shared.host.fetchedBlocks.get? 1 ≠
        (forgedAnnouncement.foldl step initial).shared.host.fetchedBlocks.get? 1 := by
    decide +kernel
  exact differs (same.block 1 known)

/-- A block that arrives on request, and its handler runs to the end. -/
def fetched (index : ℕ) (senderId : String) (block : BlockV2 SymbolicDigest) :
    List (AccountEvent SymbolicDigest) :=
  .deliver ⟨senderId, .blockFetchResponse (some "ok") (some block)⟩ ::
    List.replicate 2 (.resume index ⟨.error "", ""⟩)

/-- A forged block for a height that no configured peer has sent yet is replaced by the block that
the configured peer sends. -/
theorem sameView_fetchedAgain :
    let host := { freshHost with lastSeenChain := some ⟨2, .digest (filled 2)⟩ }
    let events := fetched 0 "mallory" forgedBlock ++
      fetched 1 "consensus-0" (genesis.peerBlock 1 firstEntry)
    let initial : AccountRun SymbolicDigest := ⟨⟨host, ∅, ∅⟩, []⟩
    let step := step host.consensusPeerIds
    SameView (events.foldl step initial).shared
      ((Threads.without (AccountEnvelope.IsStrange host.consensusPeerIds) events).foldl step
        initial).shared := by
  intro host events initial step
  refine sameView_of_keeps host ∅ events ?_ events List.prefix_rfl
  decide +kernel

end WatchedHost

end EZChain
