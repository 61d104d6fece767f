import EZChain.Host.LocalSessions

/-!
# Failed local payments

The wallet reserves the records of a payment before the pool looks at the bundle, and neither the
account node nor the session rolls the reservation back.  A payment that fails therefore leaves the
wallet as it was only when it fails before the reservation.
-/

namespace EZChain

open Checks

variable {H : Type}

/-- The wallet has no other pending bundles than before, and the same atoms are spendable. -/
def Undone (before after : LocalWalletDB H) : Prop :=
  after.pendingBundles = before.pendingBundles ∧ after.spendableAtoms = before.spendableAtoms

theorem not_undone_of_pending {before after : LocalWalletDB H}
    (free : before.pendingBundles.keys = [])
    {seq : ℕ} {context : PendingBundleContext H}
    (pending : after.getPendingBundle seq = some context) : ¬ Undone before after := by
  intro undone
  rw [LocalWalletDB.getPendingBundle, undone.1, (OrderedDict.keys_eq_nil_iff _).mp free] at pending
  cases pending

/-- The bundle was not admitted, or no block was produced. -/
def PaymentError.Unconfirmed : PaymentError → Prop
  | .admission _ | .production _ => True
  | .building _ | .receipt _ | .handOver _ => False

variable [Crypto H] [DecidableEq H]

/-- The account node leaves its wallet usable when the bundle is not admitted. -/
def V2AccountNode.UndoesFailure (account : V2AccountNode H) (call : PaymentCall) : Prop :=
  ∀ error after, account.submitPayment call = (.error error, after) → error.Unconfirmed →
    Undone account.wallet after.wallet

/-- The session leaves its wallet usable when the bundle is not admitted or no block is produced. -/
def V2LocalAppSession.UndoesFailure (session : V2LocalAppSession H) (call : PaymentCall)
    (production : Production) : Prop :=
  ∀ error after, session.submitConfirmedPayment call production = (.error error, after) →
    error.Unconfirmed → Undone session.wallet after.wallet

namespace ChainStateV2

/-! ## Admission -/

/-- The pool has no bundle of the sender and the submission follows the confirmed one, or it has
the same bundle for a lower fee. -/
def SlotOpen (chain : ChainStateV2 H) (submission : BundleSubmission H) : Prop :=
  match chain.bundlePool.pendingBySender.get? submission.sidecar.senderAddr with
  | none => submission.envelope.seq = chain.confirmedSeq submission.sidecar.senderAddr + 1
  | some existing =>
      existing.envelope.seq = submission.envelope.seq ∧
        existing.envelope.bundleHash = submission.envelope.bundleHash ∧
          (existing = submission ∨ existing.envelope.fee < submission.envelope.fee)

/-- What the pool asks of a submission alone, when its hashes were computed from its sidecar. -/
structure WithinLimits (chain : ChainStateV2 H) (submission : BundleSubmission H) : Prop where
  chainId : submission.envelope.chainId = chain.bundlePool.chainId
  alive : chain.currentHeight ≤ submission.envelope.expiryHeight
  signature : verifyBundleEnvelope submission.envelope submission.senderPublicKeyPem = true
  bytes : (submission.sidecar.canonicalize : Canon H).encodedLength ≤
    chain.bundlePool.maxBundleBytes
  transfers : submission.sidecar.txList.length ≤ chain.bundlePool.maxTxPerBundle
  entries : ∀ tx ∈ submission.sidecar.txList,
    tx.valueList.length ≤ chain.bundlePool.maxValueEntriesPerTx

/-- The pool takes the submission. -/
structure Admits (chain : ChainStateV2 H) (submission : BundleSubmission H) : Prop
    extends chain.WithinLimits submission where
  slot : chain.SlotOpen submission

/-- The chain with a submission in the pool slot of its sender. -/
def withPending (chain : ChainStateV2 H) (submission : BundleSubmission H) : ChainStateV2 H :=
  { chain with
    bundlePool :=
      { chain.bundlePool with
        pendingBySender := chain.bundlePool.pendingBySender.set submission.sidecar.senderAddr
          submission } }

/-- The submission carries the hashes of its sidecar and comes from its sender. -/
structure Sealed (submission : BundleSubmission H) : Prop where
  sender : Crypto.addressFromPublicKeyPem H submission.senderPublicKeyPem =
    .ok submission.sidecar.senderAddr
  bundleHash : submission.envelope.bundleHash = computeBundleHash submission.sidecar
  claimSetHash : submission.envelope.claimSetHash =
    some (claimRangeSetHash (claimRangeSetFromSidecar submission.sidecar))

theorem checkSubmission_eq_ok {chain : ChainStateV2 H} {submission : BundleSubmission H}
    (isSealed : Sealed submission) {senderAddr : Address} :
    chain.bundlePool.checkSubmission submission chain.currentHeight = .ok senderAddr ↔
      chain.WithinLimits submission ∧ submission.sidecar.senderAddr = senderAddr := by
  simp only [BundlePool.checkSubmission, bind_eq_ok, require_eq_ok, exists_const, pure_eq_ok,
    isSealed.sender, isSealed.bundleHash, isSealed.claimSetHash, Except.ok.injEq, true_and, or_true]
  constructor
  · intro checked
    obtain ⟨_, sender, chainId, same, alive, signature, bytes, transfers, entries, result⟩ :=
      checked
    exact ⟨⟨chainId, alive, signature, bytes, transfers, entries⟩, same.trans result⟩
  · intro within
    obtain ⟨limits, result⟩ := within
    exact ⟨_, rfl, limits.chainId, rfl, limits.alive, limits.signature, limits.bytes,
      limits.transfers, limits.entries, result⟩

/-- A sealed submission is admitted exactly when the pool's own conditions hold. -/
theorem submitBundle_eq_ok_iff (chain next : ChainStateV2 H) {submission : BundleSubmission H}
    (isSealed : Sealed submission) :
    chain.submitBundle submission = .ok next ↔
      chain.Admits submission ∧ next = chain.withPending submission := by
  have split : chain.Admits submission ↔
      chain.WithinLimits submission ∧ chain.SlotOpen submission :=
    ⟨fun admits => ⟨admits.toWithinLimits, admits.slot⟩, fun ⟨limits, slot⟩ => ⟨limits, slot⟩⟩
  rw [split]
  simp only [submitBundle, BundlePool.submit, bind_eq_ok, checkSubmission_eq_ok isSealed,
    isSealed.sender, Except.ok.injEq, exists_eq_left', require_eq_ok, exists_const, pure_eq_ok,
    SlotOpen, and_assoc, exists_and_left]
  refine and_congr_right fun _ => ?_
  cases found : chain.bundlePool.pendingBySender.get? submission.sidecar.senderAddr with
  | none =>
      simp only [Option.map_none, reduceCtorEq, or_false, pure_eq_ok, exists_eq_left']
      exact and_congr_right fun _ => eq_comm
  | some existing =>
      simp only [Option.map_some, Option.some.injEq, bind_eq_ok, require_eq_ok, exists_const]
      have kept : existing = submission → chain.withPending submission = chain := by
        rintro rfl
        rw [withPending, (OrderedDict.set_eq_self_iff _ _ _).mpr found]
      split
      next same =>
        simp only [pure_eq_ok, same, or_true, true_and, exists_eq_left', true_or, kept same]
        exact eq_comm
      next other =>
        simp only [bind_eq_ok, require_eq_ok, exists_const, pure_eq_ok, other, false_or]
        constructor
        · rintro ⟨-, pool, ⟨seq_eq, hash_eq, cheaper, rfl⟩, rfl⟩
          exact ⟨⟨seq_eq, hash_eq, cheaper⟩, rfl⟩
        · rintro ⟨⟨seq_eq, hash_eq, cheaper⟩, rfl⟩
          exact ⟨.inr seq_eq, _, ⟨seq_eq, hash_eq, cheaper, rfl⟩, rfl⟩

end ChainStateV2

/-! ## Production -/

namespace ConsensusNode

/-- The store takes the next block of a chain: the storage engine works, and neither the height nor
the hash of the block is taken. -/
structure StoresNext (node : ConsensusNode H) (chain : ChainStateV2 H) (production : Production) :
    Prop where
  storage : production.storage = .ok ()
  height : chain.currentHeight + 1 ∉ node.store.blocks.keys
  blockHash : ∀ stored ∈ node.store.blocks.values,
    stored.blockHash ≠ (chain.builtBlock production.timestamp [] [] none).blockHash

omit [DecidableEq H] in
theorem snapshot_withPending_ne_nil (chain : ChainStateV2 H) (submission : BundleSubmission H) :
    (chain.withPending submission).bundlePool.snapshot none ≠ [] := by
  intro empty
  have length_eq := congrArg List.length empty
  rw [BundlePool.snapshot, sliceTo, List.length_insertionSort] at length_eq
  have stored : submission ∈
      (chain.withPending submission).bundlePool.pendingBySender.values :=
    (OrderedDict.mem_values_iff _ _).mpr ⟨_, OrderedDict.get?_set_self _ _ _⟩
  rw [List.eq_nil_of_length_eq_zero length_eq] at stored
  exact absurd stored List.not_mem_nil

omit [DecidableEq H] in
theorem mem_keys_blockReceipts (state : ChainStateV2 H) {block : BlockV2 H} {entry : DiffEntry H}
    (member : entry ∈ block.diffPackage.diffEntries) :
    entry.newLeaf.addr ∈ (state.blockReceipts block).keys := by
  refine (OrderedDict.mem_keys_setAll _ _ _).mpr (.inl ?_)
  rw [List.map_map]
  exact List.mem_map_of_mem member

theorem saveOn_eq_ok_iff (node : ConsensusNode H) (storage : Except String Unit)
    (chain next : ChainStateV2 H) (block : BlockV2 H) :
    (∃ store, node.saveOn storage chain block (next.blockReceipts block) = .ok store) ↔
      storage = .ok () ∧ block.header.height ∉ node.store.blocks.keys ∧
        ∀ stored ∈ node.store.blocks.values, stored.blockHash ≠ block.blockHash := by
  simp only [saveOn, save, ConsensusStateStore.saveAppliedBlock, bind_eq_ok, require_eq_ok,
    exists_const, pure_eq_ok, exists_unit]
  constructor
  · intro saved
    obtain ⟨_, works, _, free, _⟩ := saved
    exact ⟨works, free⟩
  · intro conditions
    obtain ⟨works, free⟩ := conditions
    exact ⟨_, works, fun entry member => mem_keys_blockReceipts next member, free, rfl⟩

/-- With a bundle in the pool a block is produced exactly when the store takes it. -/
theorem produceBlock_eq_ok_iff {node : ConsensusNode H} {submission : BundleSubmission H}
    {chain : ChainStateV2 H} (chain_eq : node.chain = chain.withPending submission)
    (production : Production) :
    (∃ produced next, node.produceBlock production = (.ok produced, next)) ↔
      node.StoresNext node.chain production := by
  have pending : node.chain.bundlePool.snapshot none ≠ [] := by
    rw [chain_eq]
    exact snapshot_withPending_ne_nil chain submission
  have built := (node.chain.buildBlock_eq production.timestamp [] [] none).1
  have stores : node.StoresNext node.chain production ↔ ∃ store,
      node.saveOn production.storage (node.chain.buildBlock production.timestamp [] [] none).2
        (node.chain.builtBlock production.timestamp [] [] none)
        (node.chain.blockReceipts (node.chain.builtBlock production.timestamp [] [] none)) =
          .ok store := by
    rw [saveOn_eq_ok_iff]
    exact ⟨fun next => ⟨next.storage, next.height, next.blockHash⟩,
      fun ⟨works, height, hash⟩ => ⟨works, height, hash⟩⟩
  rw [stores]
  simp only [produceBlock, NodeCall.extend, if_neg pending, built]
  cases node.saveOn production.storage (node.chain.buildBlock production.timestamp [] [] none).2
      (node.chain.builtBlock production.timestamp [] [] none)
      (node.chain.blockReceipts (node.chain.builtBlock production.timestamp [] [] none)) with
  | error message => simp
  | ok store => simp

end ConsensusNode

/-! ## Failed payments -/

omit [DecidableEq H] in
theorem sealed_paymentSubmission {wallet : LocalWalletDB H} {publicKeyPem : Bytes}
    {call : PaymentCall} {tx : OffChainTx} (pays : wallet.Pays publicKeyPem call tx)
    (chainId : ℕ) :
    ChainStateV2.Sealed (wallet.paymentSubmission publicKeyPem chainId call tx pays.sender_eq) :=
  ⟨pays.account, rfl, rfl⟩

namespace V2AccountNode

variable (account : V2AccountNode H) (call : PaymentCall)

/-- The bundle that the payment submits for a transfer. -/
def submissionOf {tx : OffChainTx} (pays : account.wallet.Pays account.publicKeyPem call tx) :
    BundleSubmission H :=
  account.wallet.paymentSubmission account.publicKeyPem account.chainId call tx pays.sender_eq

/-- How a payment ends: nothing was reserved, the reservation is left behind, or the bundle is in
the pool. -/
theorem submitPayment_cases {node : ConsensusNode H} (attached : account.consensus = some node)
    (fresh : account.wallet.FreshIds call.recordIds) :
    ((∀ tx, ¬ account.wallet.Pays account.publicKeyPem call tx) ∧ ∃ message,
      account.submitPayment call = (.error (.building message), account)) ∨
    ∃ tx, ∃ pays : account.wallet.Pays account.publicKeyPem call tx, ∃ context wallet,
      wallet.getPendingBundle context.seq = some context ∧
      ((¬ node.chain.Admits (account.submissionOf call pays) ∧ ∃ message,
          account.submitPayment call =
            (.error (.admission message), { account with wallet := wallet })) ∨
        node.chain.Admits (account.submissionOf call pays) ∧ account.submitPayment call =
          (.ok ⟨account.submissionOf call pays, tx⟩,
            { account with
              wallet := wallet
              consensus := some { node with
                chain := node.chain.withPending (account.submissionOf call pays) } })) := by
  obtain ⟨wallet, publicKeyPem, chainId, consensus⟩ := account
  obtain rfl : consensus = some node := attached
  simp only [submitPayment]
  rcases wallet.execute_buildPaymentBundle publicKeyPem chainId fresh with
    ⟨poor, message, built⟩ | ⟨tx, context, next, pays, built, -, pending⟩
  · refine .inl ⟨poor, message, ?_⟩
    rw [built]
  · refine .inr ⟨tx, pays, context, next, pending, ?_⟩
    rw [built]
    have admitted := fun chain => node.chain.submitBundle_eq_ok_iff chain
      (sealed_paymentSubmission pays chainId)
    cases submitted : node.chain.submitBundle
        (wallet.paymentSubmission publicKeyPem chainId call tx pays.sender_eq) with
    | error message =>
        refine .inl ⟨fun admits => ?_, message, ?_⟩
        · have accepted := (admitted _).mpr ⟨admits, rfl⟩
          rw [submitted] at accepted
          cases accepted
        · simp only [submitted]
    | ok chain =>
        obtain ⟨admits, rfl⟩ := (admitted chain).mp submitted
        refine .inr ⟨admits, ?_⟩
        simp only [submitted]
        rfl

/-- A payment leaves the reservation behind exactly when the bundle is not admitted. -/
theorem undoesFailure_iff (fresh : account.wallet.FreshIds call.recordIds) :
    account.UndoesFailure call ↔ ∀ node ∈ account.consensus, ∀ tx,
      ∀ pays : account.wallet.Pays account.publicKeyPem call tx,
        node.chain.Admits (account.submissionOf call pays) := by
  cases attached : account.consensus with
  | none =>
      refine iff_of_true ?_ nofun
      intro error after raised unconfirmed
      rw [submitPayment, attached] at raised
      cases raised
      exact unconfirmed.elim
  | some node =>
      simp only [Option.mem_some_iff, forall_eq']
      rcases account.submitPayment_cases call attached fresh with ⟨poor, message, built⟩ |
        ⟨tx, pays, context, wallet, pending, ⟨refused, message, submitted⟩ | ⟨admits, submitted⟩⟩
      · refine iff_of_true ?_ fun tx pays => absurd pays (poor tx)
        intro error after raised unconfirmed
        rw [built] at raised
        cases raised
        exact unconfirmed.elim
      · refine iff_of_false ?_ fun admitted => refused (admitted tx pays)
        intro undoes
        exact not_undone_of_pending pays.free pending (undoes _ _ submitted trivial)
      · refine iff_of_true ?_ fun other others => ?_
        · intro error after raised _
          rw [submitted] at raised
          cases raised
        · obtain rfl := pays.unique others
          exact admits

end V2AccountNode

namespace V2LocalAppSession

variable (session : V2LocalAppSession H) (call : PaymentCall) (production : Production)

theorem not_unconfirmed_of_settlePayment {targetTx : OffChainTx} {delivery : Option ReceiptDelivery}
    {error : PaymentError} {after : V2LocalAppSession H}
    (raised : session.settlePayment targetTx delivery = (.error error, after)) :
    ¬ error.Unconfirmed := by
  cases delivery with
  | none =>
      cases raised
      exact id
  | some delivery =>
      simp only [settlePayment] at raised
      generalize (if delivery.applied = true then session else session.syncReceipts) = synced
        at raised
      split at raised
      · cases raised
        exact id
      · split at raised
        · cases raised
          exact id
        · cases raised

variable {submitted : SubmittedPayment H} {account : V2AccountNode H}

theorem submitConfirmedPayment_of_not_produced {message : String} {node : ConsensusNode H}
    (sent : session.accountNode.submitPayment call = (.ok submitted, account))
    (produced : (session.withAccount account).consensus.produceBlock production =
      (.error message, node)) :
    session.submitConfirmedPayment call production =
      (.error (.production message), { session.withAccount account with consensus := node }) := by
  simp only [submitConfirmedPayment, sent, produced]

theorem not_unconfirmed_of_produced {block : BlockV2 H × OrderedDict Address (Receipt H)}
    {node : ConsensusNode H}
    (sent : session.accountNode.submitPayment call = (.ok submitted, account))
    (produced : (session.withAccount account).consensus.produceBlock production = (.ok block, node))
    {error : PaymentError} {after : V2LocalAppSession H}
    (raised : session.submitConfirmedPayment call production = (.error error, after)) :
    ¬ error.Unconfirmed := by
  simp only [submitConfirmedPayment, sent, produced] at raised
  split at raised
  next settled =>
    cases raised
    exact not_unconfirmed_of_settlePayment _ settled
  · cases raised

/-- A confirmed payment leaves the reservation behind exactly when the bundle is not admitted or the
store does not take the block. -/
theorem undoesFailure_iff (fresh : session.wallet.FreshIds call.recordIds) :
    session.UndoesFailure call production ↔
      ∀ tx, ∀ pays : session.wallet.Pays session.publicKeyPem call tx,
        session.consensus.chain.Admits (session.accountNode.submissionOf call pays) ∧
          session.consensus.StoresNext (session.consensus.chain.withPending
            (session.accountNode.submissionOf call pays)) production := by
  rcases session.accountNode.submitPayment_cases call rfl fresh with ⟨poor, message, built⟩ |
    ⟨tx, pays, context, wallet, pending, ⟨refused, message, submitted⟩ | ⟨admits, submitted⟩⟩
  · refine iff_of_true ?_ fun tx pays => absurd pays (poor tx)
    intro error after raised unconfirmed
    simp only [submitConfirmedPayment, built] at raised
    cases raised
    exact unconfirmed.elim
  · refine iff_of_false ?_ fun admitted => refused (admitted tx pays).1
    intro undoes
    refine not_undone_of_pending pays.free pending (undoes (.admission message)
      { session with wallet := wallet } ?_ trivial)
    simp only [submitConfirmedPayment, submitted]
    rfl
  · let node : ConsensusNode H := { session.consensus with
      chain := session.consensus.chain.withPending (session.accountNode.submissionOf call pays) }
    have stores : node.StoresNext node.chain production ↔
        session.consensus.StoresNext node.chain production :=
      ⟨fun next => ⟨next.1, next.2, next.3⟩, fun next => ⟨next.1, next.2, next.3⟩⟩
    have pooled : node.chain = session.consensus.chain.withPending
        (session.accountNode.submissionOf call pays) := rfl
    have produces := ConsensusNode.produceBlock_eq_ok_iff pooled production
    have condition : (∀ tx, ∀ pays : session.wallet.Pays session.publicKeyPem call tx,
        session.consensus.chain.Admits (session.accountNode.submissionOf call pays) ∧
          session.consensus.StoresNext (session.consensus.chain.withPending
            (session.accountNode.submissionOf call pays)) production) ↔
        session.consensus.StoresNext node.chain production := by
      refine ⟨fun all => (all tx pays).2, fun stored other others => ?_⟩
      obtain rfl := pays.unique others
      exact ⟨admits, stored⟩
    rw [condition, ← stores, ← produces]
    cases produced : node.produceBlock production with
    | mk result next =>
        cases result with
        | error message =>
            refine iff_of_false (fun undoes => ?_) nofun
            have raised := session.submitConfirmedPayment_of_not_produced call production submitted
              produced
            exact not_undone_of_pending pays.free pending (undoes _ _ raised trivial)
        | ok block =>
            refine iff_of_true ?_ ⟨block, next, rfl⟩
            intro error after raised unconfirmed
            exact absurd unconfirmed
              (session.not_unconfirmed_of_produced call production submitted produced raised)

end V2LocalAppSession

/-- A failed payment leaves the wallet as it was exactly when the pool admits the bundle and, in a
session, the store takes the block. -/
theorem failed_payment_undone_iff (account : V2AccountNode H) (session : V2LocalAppSession H)
    (call : PaymentCall) (production : Production)
    (fresh : account.wallet.FreshIds call.recordIds ∧ session.wallet.FreshIds call.recordIds) :
    (account.UndoesFailure call ↔ ∀ node ∈ account.consensus, ∀ tx,
      ∀ pays : account.wallet.Pays account.publicKeyPem call tx,
        node.chain.Admits (account.submissionOf call pays)) ∧
    (session.UndoesFailure call production ↔
      ∀ tx, ∀ pays : session.wallet.Pays session.publicKeyPem call tx,
        session.consensus.chain.Admits (session.accountNode.submissionOf call pays) ∧
          session.consensus.StoresNext (session.consensus.chain.withPending
            (session.accountNode.submissionOf call pays)) production) :=
  ⟨account.undoesFailure_iff call fresh.1, session.undoesFailure_iff call production fresh.2⟩

section Samples

open SymbolicDigest

/-- A genesis value of one atom. -/
def fragment (index : ℕ) : LocalValueRecord SymbolicDigest where
  recordId := LocalWalletDB.unaryIds index
  value := ⟨index, index, le_rfl⟩
  witnessV2 := .genesis ⟨index, index, le_rfl⟩ alice [] ⟨filled 0, alice, index, index, le_rfl⟩
  localStatus := .verifiedSpendable
  acquisitionHeight := 0

def fragments (count : ℕ) : List (LocalValueRecord SymbolicDigest) :=
  (List.range count).map fragment

theorem recordIds_fragments (count : ℕ) : (fragments count).map LocalValueRecord.recordId =
    (List.range count).map LocalWalletDB.unaryIds := by
  rw [fragments, List.map_map]
  rfl

/-- A wallet whose balance is scattered over one-atom records. -/
def fragmentedWallet (count : ℕ) : LocalWalletDB SymbolicDigest :=
  { LocalWalletDB.new alice (filled 0) with
    records := fragments count
    recordIds_nodup := by
      rw [recordIds_fragments]
      exact List.nodup_range.map LocalWalletDB.unaryIds_injective }

theorem spendableRecords_fragments (count : ℕ) :
    spendableRecords (fragments count) = fragments count := by
  refine List.filter_eq_self.mpr fun record member => ?_
  obtain ⟨index, -, rfl⟩ := List.mem_map.mp member
  rfl

theorem fragments_apart (count : ℕ) : (fragments count).Pairwise fun left right =>
    left.value.intersects right.value = false := by
  rw [fragments, List.pairwise_map]
  exact List.pairwise_lt_range.imp fun before =>
    not_intersects_of_before before

/-- Alice pays her whole balance to Bob. -/
def payAll (count : ℕ) : PaymentCall where
  recipientAddr := bob
  amount := count
  expiryHeight := 100
  fee := 0
  antiSpamNonce := 0
  txTime := 0
  sig := [1]
  recordIds index := LocalWalletDB.unaryIds (count + index)

theorem freshIds_fragmentedWallet (count : ℕ) :
    (fragmentedWallet count).FreshIds (payAll count).recordIds := by
  constructor
  · intro left right same
    exact Nat.add_left_cancel (LocalWalletDB.unaryIds_injective same)
  · intro index member
    change _ ∈ (fragments count).map LocalValueRecord.recordId at member
    rw [recordIds_fragments] at member
    obtain ⟨other, other_mem, same⟩ := List.mem_map.mp member
    have other_lt := List.mem_range.mp other_mem
    have other_eq := LocalWalletDB.unaryIds_injective same
    omega

/-- The whole balance is paid in as many ranges as there are records. -/
theorem exists_pays_fragments {count : ℕ} (positive : 0 < count) :
    ∃ tx, (fragmentedWallet count).Pays [1] (payAll count) tx ∧ tx.valueList.length = count := by
  have total : spendableTotal (fragments count) = count := by
    have sizes : (fragments count).map (fun record => record.value.size) =
        List.replicate count 1 := by
      refine List.eq_replicate_iff.mpr ⟨by simp [fragments], fun size member => ?_⟩
      obtain ⟨record, record_mem, rfl⟩ := List.mem_map.mp member
      obtain ⟨index, -, rfl⟩ := List.mem_map.mp record_mem
      simp [fragment, ValueRange.size]
    rw [spendableTotal, spendableRecords_fragments, sizes]
    simp
  have planned : selectPlan alice [] (sortedSpendableRecords (fragments count)) count ≠ none := by
    intro none_selected
    have short := (selectPlan_eq_none_iff alice [] (fragments count) positive).mp none_selected
    omega
  obtain ⟨plan, plan_eq⟩ := Option.ne_none_iff_exists'.mp planned
  have apart : (spendableRecords (fragments count)).Pairwise fun left right =>
      left.value.intersects right.value = false := by
    rw [spendableRecords_fragments]
    exact fragments_apart count
  have amount_pos : (0 : ℤ) < count := Int.natCast_pos.mpr positive
  obtain ⟨ranges, selected, payment⟩ := selectPaymentRanges_of_plan amount_pos apart plan_eq
  have units : ∀ range ∈ ranges, range.size = 1 := by
    obtain ⟨holders, subperm, inside⟩ := payment.holders
    intro range member
    obtain ⟨holder, holder_mem, contains⟩ := exists_related inside.flip member
    have fragment_mem := subperm.subset holder_mem
    rw [spendableRecords_fragments] at fragment_mem
    obtain ⟨index, -, rfl⟩ := List.mem_map.mp fragment_mem
    obtain ⟨begin_le, end_le⟩ := (ValueRange.containsRange_iff _ _).mp contains
    have ends := range.begin_le_end
    have inside_begin : index ≤ range.valueBegin := begin_le
    have inside_end : range.valueEnd ≤ index := end_le
    rw [ValueRange.size]
    omega
  have length_eq : ranges.length = count := by
    have sizes : ranges.map ValueRange.size = List.replicate ranges.length 1 :=
      List.eq_replicate_iff.mpr ⟨List.length_map _, fun size member => by
        obtain ⟨range, range_mem, rfl⟩ := List.mem_map.mp member
        exact units range range_mem⟩
    have sum_eq := payment.sum_eq
    rw [sizes] at sum_eq
    simpa using sum_eq
  have nonempty : ranges ≠ [] := by
    rintro rfl
    exact positive.ne length_eq
  have transfer : OffChainTx.ofRanges alice bob 0 ranges =
      .ok ⟨alice, bob, ranges, 0, 0, [], nonempty, payment.ordered⟩ := by
    rw [OffChainTx.ofRanges, dif_pos nonempty, dif_pos payment.ordered]
  exact ⟨⟨alice, bob, ranges, 0, 0, [], nonempty, payment.ordered⟩,
    ⟨amount_pos, rfl, rfl, selected, transfer⟩, length_eq⟩

/-- A session of Alice on a new backend. -/
def fragmentedSession (count : ℕ) : V2LocalAppSession SymbolicDigest where
  wallet := fragmentedWallet count
  publicKeyPem := [1]
  chainId := 1
  consensus := .new 1 32 (filled 0)
  autoConfirmReceipts := true
  mailbox := ∅

/-- A balance in 65 records is paid in 65 ranges, one more than a transfer may list.  The pool
raises, and the wallet keeps the reservation. -/
theorem failed_payment_undone_fragments :
    ¬ (fragmentedSession 65).accountNode.UndoesFailure (payAll 65) ∧
      ¬ (fragmentedSession 65).UndoesFailure (payAll 65) ⟨.ok (), 0⟩ := by
  have fresh := freshIds_fragmentedWallet 65
  obtain ⟨tx, pays, length_eq⟩ := exists_pays_fragments (by decide : 0 < 65)
  have refused : ¬ (fragmentedSession 65).consensus.chain.Admits
      ((fragmentedSession 65).accountNode.submissionOf (payAll 65) pays) := by
    intro admits
    have within : tx.valueList.length ≤ 64 := admits.entries tx (List.mem_singleton_self tx)
    omega
  constructor
  · intro undoes
    exact refused (((fragmentedSession 65).accountNode.undoesFailure_iff (payAll 65) fresh).mp
      undoes _ rfl tx pays)
  · intro undoes
    exact refused (((fragmentedSession 65).undoesFailure_iff (payAll 65) ⟨.ok (), 0⟩ fresh).mp
      undoes tx pays).1

/-- A balance in three records, paid by the account node and by its session. -/
theorem failed_payment_undone_three :
    ((fragmentedSession 3).accountNode.UndoesFailure (payAll 3) ↔
        ∀ node ∈ (fragmentedSession 3).accountNode.consensus, ∀ tx,
          ∀ pays : (fragmentedWallet 3).Pays [1] (payAll 3) tx,
            node.chain.Admits ((fragmentedSession 3).accountNode.submissionOf (payAll 3) pays)) ∧
      ((fragmentedSession 3).UndoesFailure (payAll 3) ⟨.ok (), 0⟩ ↔
        ∀ tx, ∀ pays : (fragmentedWallet 3).Pays [1] (payAll 3) tx,
          let submission := (fragmentedSession 3).accountNode.submissionOf (payAll 3) pays
          (fragmentedSession 3).consensus.chain.Admits submission ∧
            (fragmentedSession 3).consensus.StoresNext
              ((fragmentedSession 3).consensus.chain.withPending submission) ⟨.ok (), 0⟩) :=
  failed_payment_undone_iff (fragmentedSession 3).accountNode (fragmentedSession 3) (payAll 3)
    ⟨.ok (), 0⟩ ⟨freshIds_fragmentedWallet 3, freshIds_fragmentedWallet 3⟩

end Samples

end EZChain
