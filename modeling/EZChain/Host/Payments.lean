import EZChain.Chain.Reachable
import EZChain.Library.Runs
import EZChain.Wallet.Calls
import Mathlib.Data.List.MinMax

/-!
# Payments over a network

An account host builds a bundle, sends it to a consensus host and rolls it back when the call
raises.  The network may lose, delay or duplicate every request and every receipt, so the call may
raise although its bundle has been admitted.
-/

namespace EZChain

open Checks Runs ChainStateV2

variable {H : Type}

/-- The seq and the hash of a bundle, which name it among the bundles of its account. -/
abbrev BundleName (H : Type) := ℕ × H

def BundleSubmission.name (submission : BundleSubmission H) : BundleName H :=
  (submission.envelope.seq, submission.envelope.bundleHash)

def PendingBundleContext.name (context : PendingBundleContext H) : BundleName H :=
  (context.seq, context.bundleHash)

def DiffEntry.name (entry : DiffEntry H) : BundleName H :=
  (entry.bundleEnvelope.seq, entry.bundleEnvelope.bundleHash)

/-- An account host, a consensus host and what the network has carried between them. -/
structure PaymentNetwork (H : Type) where
  /-- The wallet that pays. -/
  wallet : LocalWalletDB H
  /-- The consensus node's chain. -/
  chain : ChainStateV2 H
  /-- Requests of the account; each may arrive any number of times, or never. -/
  requests : List (BundleSubmission H)
  /-- Blocks that the consensus host has previewed and may apply later. -/
  previews : List (BlockV2 H)
  /-- Receipts of the account that the consensus host has issued. -/
  receipts : List (Receipt H)
  /-- Bundles of the account that the consensus host has admitted to its pool. -/
  admitted : List (BundleName H)
  /-- Bundles of the account that were rolled back, and not built again since. -/
  rolledBack : List (BundleName H)

/-- One step of one of the hosts. -/
inductive PaymentAction (H : Type) where
  /-- `submit_payment` builds a bundle and sends it. -/
  | submitPayment (call : BundleCall)
  /-- `submit_payment` raises: it sees no response, or one that is not ok. -/
  | submitPaymentRaises (seq : ℕ)
  /-- A receipt arrives, pushed by the consensus host or fetched from it. -/
  | receiptDeliver (receipt : Receipt H)
  /-- Another call on the wallet. -/
  | walletCall (call : WalletCall H)
  /-- A request arrives at the consensus host. -/
  | bundleSubmit (submission : BundleSubmission H)
  | produceBlock (timestamp : ℕ) (proposerSig consensusExtra : Bytes) (limit : Option ℤ)
  | previewBlock (timestamp : ℕ) (proposerSig consensusExtra : Bytes) (limit : Option ℤ)
  | applyBlock (block : BlockV2 H)

/-- The calls that neither build a bundle nor settle one. -/
def WalletCall.Passive : WalletCall H → Prop
  | .addGenesisValue _ _ | .receiveTransfer _ _ _ | .markReceiptMissing _
  | .observeCanonicalHeader _ => True
  | .buildBundle _ | .onReceiptConfirmed _ | .rollbackPendingBundle _ => False

namespace PaymentNetwork

/-- A new wallet next to a chain. -/
def new (address : Address) (genesisBlockHash : H) (chain : ChainStateV2 H) : PaymentNetwork H where
  wallet := .new address genesisBlockHash
  chain := chain
  requests := []
  previews := []
  receipts := []
  admitted := []
  rolledBack := []

/-- The account of the wallet. -/
def address (net : PaymentNetwork H) : Address := net.wallet.address

/-- The receipt that a block brings to the account. -/
def issued (net : PaymentNetwork H) (receipts : OrderedDict Address (Receipt H)) :
    List (Receipt H) :=
  (receipts.get? net.address).toList

section Crypto

variable [Crypto H] [DecidableEq H]

/-- `submit_payment` up to the request: the bundle takes the wallet's next seq. -/
def submitPayment (net : PaymentNetwork H) (call : BundleCall) : PaymentNetwork H :=
  match net.wallet.execute
      (net.wallet.buildBundle { call with seq := net.wallet.nextSequence }) with
  | (.error _, wallet) => { net with wallet := wallet }
  | (.ok (submission, _), wallet) =>
      { net with
        wallet := wallet
        requests := submission :: net.requests
        rolledBack := net.rolledBack.filter fun bundle => bundle ≠ submission.name }

/-- The handler of an exception in `submit_payment`; an error of the rollback is dropped. -/
def submitPaymentRaises (net : PaymentNetwork H) (seq : ℕ) : PaymentNetwork H :=
  match net.wallet.getPendingBundle seq with
  | none => net
  | some context =>
      { net with
        wallet := net.wallet.perform (.rollbackPendingBundle seq)
        rolledBack := context.name :: net.rolledBack }

/-- `submit_bundle` in `_on_bundle_submit`.  The block that the handler goes on to produce or to
preview is a step of its own. -/
def bundleSubmit (net : PaymentNetwork H) (submission : BundleSubmission H) : PaymentNetwork H :=
  match net.chain.submitBundle submission with
  | .error _ => net
  | .ok chain =>
      { net with
        chain := chain
        admitted :=
          if submission.sidecar.senderAddr = net.address then submission.name :: net.admitted
          else net.admitted }

/-- `produce_block`. -/
def produceBlock (net : PaymentNetwork H) (timestamp : ℕ) (proposerSig consensusExtra : Bytes)
    (limit : Option ℤ) : PaymentNetwork H :=
  if net.chain.bundlePool.snapshot limit = [] then net
  else
    let built := net.chain.buildBlock timestamp proposerSig consensusExtra limit
    { net with
      chain := built.2
      receipts := net.issued built.1.2 ++ net.receipts }

/-- `preview_block`. -/
def previewBlock (net : PaymentNetwork H) (timestamp : ℕ) (proposerSig consensusExtra : Bytes)
    (limit : Option ℤ) : PaymentNetwork H :=
  if net.chain.bundlePool.snapshot limit = [] then net
  else
    { net with
      previews :=
        (net.chain.previewBlock timestamp proposerSig consensusExtra limit).1 :: net.previews }

/-- `apply_block`. -/
def applyBlock (net : PaymentNetwork H) (block : BlockV2 H) : PaymentNetwork H :=
  match net.chain.applyBlock block with
  | (.error _, chain) => { net with chain := chain }
  | (.ok receipts, chain) =>
      { net with
        chain := chain
        receipts := net.issued receipts ++ net.receipts }

/-- The network after a step. -/
def step (net : PaymentNetwork H) : PaymentAction H → PaymentNetwork H
  | .submitPayment call => net.submitPayment call
  | .submitPaymentRaises seq => net.submitPaymentRaises seq
  | .receiptDeliver receipt =>
      { net with wallet := net.wallet.perform (.onReceiptConfirmed receipt) }
  | .walletCall call => { net with wallet := net.wallet.perform call }
  | .bundleSubmit submission => net.bundleSubmit submission
  | .produceBlock timestamp proposerSig consensusExtra limit =>
      net.produceBlock timestamp proposerSig consensusExtra limit
  | .previewBlock timestamp proposerSig consensusExtra limit =>
      net.previewBlock timestamp proposerSig consensusExtra limit
  | .applyBlock block => net.applyBlock block

/-- What the network can deliver: requests of the account that were sent, requests of other
accounts, receipts that were issued, and blocks that were previewed. -/
def Delivers (net : PaymentNetwork H) : PaymentAction H → Prop
  | .receiptDeliver receipt => receipt ∈ net.receipts
  | .walletCall call => call.Passive
  | .bundleSubmit submission =>
      submission ∈ net.requests ∨ submission.sidecar.senderAddr ≠ net.address
  | .applyBlock block => block ∈ net.previews
  | .submitPayment _ | .submitPaymentRaises _ | .produceBlock _ _ _ _ | .previewBlock _ _ _ _ =>
      True

/-- No request of a rolled-back bundle is admitted: not before the call raises, when its response
is lost, and not afterwards, when the request is late. -/
def Unadmitted (net : PaymentNetwork H) : PaymentAction H → Prop
  | .submitPaymentRaises seq =>
      ∀ context, net.wallet.getPendingBundle seq = some context → context.name ∉ net.admitted
  | .bundleSubmit submission => submission.sidecar.senderAddr = net.address →
      submission.name ∈ net.rolledBack → ∀ next, net.chain.submitBundle submission ≠ .ok next
  | _ => True

/-- A bundle that was rolled back is in no pool and in no block, and a wallet without a pending
bundle goes on behind the chain. -/
structure NeverConfirmed (net : PaymentNetwork H) : Prop where
  pool : ∀ submission ∈ net.chain.bundlePool.pendingBySender.values,
    submission.sidecar.senderAddr = net.address → submission.name ∉ net.rolledBack
  blocks : ∀ block ∈ net.chain.blocks, ∀ entry ∈ block.diffPackage.diffEntries,
    entry.newLeaf.addr = net.address → entry.name ∉ net.rolledBack
  nextSequence : (∀ seq, net.wallet.getPendingBundle seq = none) →
    net.wallet.nextSequence = net.chain.confirmedSeq net.address + 1

/-! ## The wallet's seqs -/

end Crypto

end PaymentNetwork

namespace LocalWalletDB

/-- The largest seq of a receipt. -/
def receivedSeq (db : LocalWalletDB H) : ℕ := db.receipts.keys.foldr max 0

/-- The seq bookkeeping of two databases is the same. -/
structure SameSeqs (db other : LocalWalletDB H) : Prop where
  address : other.address = db.address
  receipts : other.receipts = db.receipts
  pendingBundles : other.pendingBundles = db.pendingBundles

variable {db : LocalWalletDB H}

theorem SameSeqs.refl (db : LocalWalletDB H) : db.SameSeqs db := ⟨rfl, rfl, rfl⟩

theorem SameSeqs.receivedSeq_eq {other : LocalWalletDB H} (same : db.SameSeqs other) :
    other.receivedSeq = db.receivedSeq := by
  rw [receivedSeq, same.receipts, receivedSeq]

theorem SameSeqs.getPendingBundle_eq {other : LocalWalletDB H} (same : db.SameSeqs other)
    (seq : ℕ) :
    other.getPendingBundle seq = db.getPendingBundle seq := by
  rw [getPendingBundle, same.pendingBundles, getPendingBundle]

theorem keys_of_none_pending (none_pending : ∀ seq, db.getPendingBundle seq = none) :
    db.pendingBundles.keys = [] := by
  refine List.eq_nil_iff_forall_not_mem.mpr fun seq => ?_
  exact (OrderedDict.get?_eq_none_iff _ _).mp (none_pending seq)

theorem nextSequence_of_none (none_pending : ∀ seq, db.getPendingBundle seq = none) :
    db.nextSequence = db.receivedSeq + 1 := by
  rw [nextSequence, keys_of_none_pending none_pending, List.append_nil, receivedSeq]

/-- A receipt above all others is the last one. -/
theorem foldr_max_keys_set {ν : Type} (dict : OrderedDict ℕ ν) {seq : ℕ} (value : ν)
    (above : dict.keys.foldr max 0 ≤ seq) : (dict.set seq value).keys.foldr max 0 = seq := by
  apply le_antisymm
  · refine List.max_le_of_forall_le _ _ fun other member => ?_
    rcases (OrderedDict.mem_keys_set _ _ _ _).mp member with rfl | earlier
    · exact le_rfl
    · exact (List.le_max_of_le earlier le_rfl).trans above
  · exact List.le_max_of_le ((OrderedDict.mem_keys_set _ _ _ _).mpr (.inl rfl)) le_rfl

section Crypto

variable [Crypto H] [DecidableEq H]

theorem SameSeqs.perform {call : WalletCall H} (passive : call.Passive) :
    db.SameSeqs (db.perform call) := by
  cases call with
  | addGenesisValue value recordId =>
      by_cases taken : recordId ∈ db.records.map LocalValueRecord.recordId
      · rw [perform_addGenesisValue_of_taken taken]
        exact .refl db
      · rw [perform_addGenesisValue taken]
        exact ⟨rfl, rfl, rfl⟩
  | receiveTransfer package context recordId =>
      obtain ⟨newest, stores⟩ | ⟨sidecars, next_eq⟩ :=
        db.perform_receiveTransfer package context recordId
      · rw [stores.perform_eq]
        exact ⟨rfl, rfl, rfl⟩
      · rw [next_eq]
        exact ⟨rfl, rfl, rfl⟩
  | markReceiptMissing seq =>
      cases found : db.getPendingBundle seq with
      | none =>
          rw [perform_markReceiptMissing_of_none found]
          exact .refl db
      | some context =>
          rw [perform_markReceiptMissing found]
          exact ⟨rfl, rfl, rfl⟩
  | observeCanonicalHeader header => exact ⟨rfl, rfl, rfl⟩
  | buildBundle call => exact passive.elim
  | onReceiptConfirmed receipt => exact passive.elim
  | rollbackPendingBundle seq => exact passive.elim

/-- Building saves one pending bundle, also when the records cannot be stored, or changes
nothing. -/
theorem execute_buildBundle (call : BundleCall) :
    (∃ message, db.execute (db.buildBundle call) = (.error message, db)) ∨
      ∃ context marked, db.BundleBuilt call context marked ∧
        (db.withPendingBundle context).SameSeqs (db.execute (db.buildBundle call)).2 ∧
        ∀ result, (db.execute (db.buildBundle call)).1 = .ok result →
          result.1 = ⟨context.envelope, context.sidecar, call.publicKeyPem⟩ := by
  cases planned : db.buildBundle call with
  | error message => exact .inl ⟨message, rfl⟩
  | ok result =>
      obtain ⟨⟨submission, context⟩, transactions⟩ := result
      obtain ⟨marked, built, rfl, rfl⟩ := buildBundle_built planned
      let withSidecar : LocalWalletDB H :=
        { db with
          bundleSidecars :=
            db.bundleSidecars.set (computeBundleHash context.sidecar) context.sidecar }
      have saved : withSidecar.commit (.savePendingBundle context) =
          .ok (db.withPendingBundle context) :=
        commit_savePendingBundle withSidecar built.free context
      refine .inr ⟨context, marked, built, ?_, fun result result_eq => ?_⟩
      · rw [execute_snd_of_ok rfl, commitAll_cons rfl, commitAll_cons saved]
        by_cases nodup : ((marked.map Prod.fst).map LocalValueRecord.recordId).Nodup
        · rw [commitAll_cons (commit_replaceValueRecords nodup)]
          exact ⟨rfl, rfl, rfl⟩
        · rw [commitAll_cons_error (commit_replaceValueRecords_of_repeated nodup)]
          exact .refl _
      · obtain ⟨transactions, plan_eq, _⟩ := execute_eq_ok.mp result_eq
        cases plan_eq
        rfl

end Crypto

end LocalWalletDB

/-! ## Blocks of pending bundles -/

namespace ChainStateV2

/-- The entry confirms a bundle at its own seq. -/
def KeepsSeq (entry : DiffEntry H) : Prop :=
  entry.newLeaf.headRef.map BundleRef.seq = some entry.bundleEnvelope.seq

theorem confirmedSeq_of_written {state next : ChainStateV2 H} {entries : List (DiffEntry H)}
    (leaves_eq : next.accountLeaves = setAccountLeaves state.accountLeaves entries)
    (nodup : (entries.map fun entry => entry.newLeaf.addr).Nodup) {entry : DiffEntry H}
    (member : entry ∈ entries) (keeps : KeepsSeq entry) :
    next.confirmedSeq entry.newLeaf.addr = entry.bundleEnvelope.seq := by
  obtain ⟨ref, head_eq, seq_eq⟩ := Option.map_eq_some_iff.mp keeps
  have leaf_eq := get?_setAccountLeaves_of_mem state.accountLeaves nodup member
  simp only [confirmedSeq, headRefOf, leaves_eq, leaf_eq, Option.bind_some, head_eq, seq_eq]

theorem confirmedSeq_of_unwritten {state next : ChainStateV2 H} {entries : List (DiffEntry H)}
    (leaves_eq : next.accountLeaves = setAccountLeaves state.accountLeaves entries) {addr : Address}
    (absent : ∀ entry ∈ entries, entry.newLeaf.addr ≠ addr) :
    next.confirmedSeq addr = state.confirmedSeq addr := by
  have unwritten : addr ∉ entries.map fun entry => entry.newLeaf.addr := by
    intro written
    obtain ⟨entry, member, addr_eq⟩ := List.mem_map.mp written
    exact absent entry member addr_eq
  have leaf_eq := get?_setAccountLeaves_of_notMem state.accountLeaves unwritten
  simp only [confirmedSeq, headRefOf, leaves_eq, leaf_eq]

variable [Crypto H] {state : ChainStateV2 H}

/-- A receipt of a block carries the seq of the bundle it confirms. -/
theorem exists_entry_of_blockReceipts {block : BlockV2 H} {addr : Address} {receipt : Receipt H}
    (found : (state.blockReceipts block).get? addr = some receipt) :
    ∃ entry ∈ block.diffPackage.diffEntries,
      entry.newLeaf.addr = addr ∧ receipt.seq = entry.bundleEnvelope.seq := by
  rcases OrderedDict.get?_setAll_eq_some _ found with member | ⟨_, earlier⟩
  · obtain ⟨entry, entry_mem, pair_eq⟩ := List.mem_map.mp member
    obtain ⟨rfl, rfl⟩ := Prod.mk.inj pair_eq
    exact ⟨entry, entry_mem, rfl, rfl⟩
  · cases earlier

/-- A built block confirms pending bundles at their own seqs. -/
theorem exists_pending_of_builtBlock {timestamp : ℕ} {proposerSig consensusExtra : Bytes}
    {limit : Option ℤ} {entry : DiffEntry H} (member : entry ∈ (state.builtBlock timestamp
      proposerSig consensusExtra limit).diffPackage.diffEntries) :
    KeepsSeq entry ∧ ∃ addr submission,
      state.bundlePool.pendingBySender.get? addr = some submission ∧
        entry.newLeaf.addr = submission.sidecar.senderAddr ∧ entry.name = submission.name := by
  rw [builtBlock, diffEntries_executedBlock] at member
  obtain ⟨submission, submission_mem, rfl⟩ := List.mem_map.mp member
  obtain ⟨addr, pending⟩ := mem_snapshot ((perm_sortSubmissions _).mem_iff.mp submission_mem)
  exact ⟨rfl, addr, submission, pending, rfl, rfl⟩

theorem WellFormed.seq_of_builtBlock (wellFormed : state.WellFormed) {timestamp : ℕ}
    {proposerSig consensusExtra : Bytes} {limit : Option ℤ} {entry : DiffEntry H}
    (member : entry ∈ (state.builtBlock timestamp proposerSig consensusExtra
      limit).diffPackage.diffEntries) :
    entry.bundleEnvelope.seq = state.confirmedSeq entry.newLeaf.addr + 1 := by
  rw [builtBlock, diffEntries_executedBlock] at member
  obtain ⟨submission, submission_mem, rfl⟩ := List.mem_map.mp member
  exact ((wellFormed.snapshot_ready limit).sorted.ready submission submission_mem).seq

theorem WellFormed.sendersNodup_builtBlock (wellFormed : state.WellFormed) (timestamp : ℕ)
    (proposerSig consensusExtra : Bytes) (limit : Option ℤ) :
    ((state.builtBlock timestamp proposerSig consensusExtra limit).diffPackage.diffEntries.map
      fun entry => entry.newLeaf.addr).Nodup := by
  rw [builtBlock, diffEntries_executedBlock, List.map_map]
  exact (wellFormed.snapshot_ready limit).sorted.sendersNodup

variable [DecidableEq H]

/-- A previewed block confirms pending bundles, too. -/
theorem exists_pending_of_previewBlock {timestamp : ℕ} {proposerSig consensusExtra : Bytes}
    {limit : Option ℤ} {entry : DiffEntry H} (member : entry ∈ (state.previewBlock timestamp
      proposerSig consensusExtra limit).1.diffPackage.diffEntries) :
    KeepsSeq entry ∧ ∃ addr submission,
      state.bundlePool.pendingBySender.get? addr = some submission ∧
        entry.newLeaf.addr = submission.sidecar.senderAddr ∧ entry.name = submission.name :=
  exists_pending_of_builtBlock member

/-- The pool takes a bundle at the next seq of its sender, in place of itself at most. -/
theorem submit_stores {pool next : BundlePool H} {submission : BundleSubmission H}
    {currentHeight confirmedSeq : ℕ}
    (submitted : pool.submit submission currentHeight confirmedSeq = .ok next) :
    next.pendingBySender.get? submission.sidecar.senderAddr = some submission ∧
      (∀ existing, pool.pendingBySender.get? submission.sidecar.senderAddr = some existing →
        existing.name = submission.name) ∧
      ∀ addr, addr ≠ submission.sidecar.senderAddr →
        next.pendingBySender.get? addr = pool.pendingBySender.get? addr := by
  simp only [BundlePool.submit, BundlePool.checkSubmission, bind_eq_ok, require_eq_ok,
    exists_const, pure_eq_ok] at submitted
  obtain ⟨sender, ⟨_, _, _, rfl, _, _, _, _, _, _, _, rfl⟩, _, stored⟩ := submitted
  cases found : pool.pendingBySender.get? submission.sidecar.senderAddr with
  | none =>
      simp only [found, pure_eq_ok] at stored
      subst stored
      exact ⟨OrderedDict.get?_set_self _ _ _, by simp,
        fun addr addr_ne => OrderedDict.get?_set_of_ne _ addr_ne.symm _⟩
  | some existing =>
      simp only [found, bind_eq_ok, require_eq_ok, exists_const] at stored
      obtain ⟨seq_eq, hash_eq, stored⟩ := stored
      have name_eq : existing.name = submission.name := Prod.ext seq_eq hash_eq
      refine and_left_comm.mp ⟨fun _ other_eq => Option.some.inj other_eq ▸ name_eq, ?_⟩
      split at stored
      · next existing_eq =>
          obtain rfl := Except.ok.inj stored
          exact ⟨existing_eq ▸ found, fun _ _ => rfl⟩
      · simp only [bind_eq_ok, require_eq_ok, exists_const, pure_eq_ok] at stored
        obtain ⟨_, rfl⟩ := stored
        exact ⟨OrderedDict.get?_set_self _ _ _,
          fun addr addr_ne => OrderedDict.get?_set_of_ne _ addr_ne.symm _⟩

/-- What `submit_bundle` changes, and which bundles it takes. -/
structure Submitted (state next : ChainStateV2 H) (submission : BundleSubmission H) : Prop where
  leaves : next.accountLeaves = state.accountLeaves
  blocks : next.blocks = state.blocks
  executable : submission.envelope.seq = state.confirmedSeq submission.sidecar.senderAddr + 1 ∨
    ∃ existing, state.bundlePool.pendingBySender.get? submission.sidecar.senderAddr =
      some existing ∧ existing.envelope.seq = submission.envelope.seq
  pending : next.bundlePool.pendingBySender.get? submission.sidecar.senderAddr = some submission
  replaces : ∀ existing, state.bundlePool.pendingBySender.get? submission.sidecar.senderAddr =
    some existing → existing.name = submission.name
  others : ∀ addr, addr ≠ submission.sidecar.senderAddr →
    next.bundlePool.pendingBySender.get? addr = state.bundlePool.pendingBySender.get? addr

theorem submitted_of_ok {next : ChainStateV2 H} {submission : BundleSubmission H}
    (submitted : state.submitBundle submission = .ok next) : Submitted state next submission := by
  simp only [ChainStateV2.submitBundle, bind_eq_ok, pure_eq_ok] at submitted
  obtain ⟨signer, signer_eq, pool, pool_submitted, rfl⟩ := submitted
  obtain ⟨_, sender_eq, rfl, _, _, _, executable, _⟩ := submit_eq_ok pool_submitted
  obtain rfl := Except.ok.inj (signer_eq.symm.trans sender_eq)
  obtain ⟨pending, replaces, others⟩ := submit_stores pool_submitted
  exact ⟨rfl, rfl, executable, pending, replaces, others⟩

end ChainStateV2

end EZChain
