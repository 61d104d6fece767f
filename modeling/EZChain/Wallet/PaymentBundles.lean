import EZChain.Wallet.CoinSelection
import EZChain.Wallet.Conservation

/-!
# Payment bundles

`build_payment_bundle` selects ranges for an amount and builds the bundle of the one transfer that
moves them.  Once the ranges are selected and lie apart, nothing else can go wrong: each of them
lies in a spendable record, so the records can be assigned and split.
-/

namespace EZChain

open Checks

/-- The arguments of a payment, with the signature that the private key gives, the time and the
fresh record ids. -/
structure PaymentCall where
  recipientAddr : Address
  /-- The atoms to pay. -/
  amount : ℤ
  expiryHeight : ℕ
  fee : ℕ
  antiSpamNonce : ℕ
  txTime : ℤ
  /-- The signature that the private key gives. -/
  sig : Bytes
  /-- The fresh record ids, in the order of their use. -/
  recordIds : ℕ → String

/-- `OffChainTx(...)` for selected ranges, which are sorted. -/
def OffChainTx.ofRanges (senderAddr recipientAddr : Address) (txTime : ℤ)
    (ranges : List ValueRange) : Except String OffChainTx :=
  if nonempty : ranges ≠ [] then
    if ordered : ranges.Pairwise fun left right => left.valueEnd < right.valueBegin then
      .ok
        { senderAddr := senderAddr
          recipientAddr := recipientAddr
          valueList := ranges
          txLocalIndex := 0
          txTime := txTime
          extraData := []
          valueList_ne_nil := nonempty
          valueList_sorted := ordered }
    else .error "value_list cannot contain overlapping ranges"
  else .error "value_list cannot be empty"

namespace LocalWalletDB

variable {H : Type}

/-- The call of `build_bundle` for one transfer, at the next sequence number. -/
def bundleCall (db : LocalWalletDB H) (publicKeyPem : Bytes) (chainId : ℕ) (call : PaymentCall)
    (tx : OffChainTx) : BundleCall where
  txList := [tx]
  publicKeyPem := publicKeyPem
  chainId := chainId
  seq := db.nextSequence
  expiryHeight := call.expiryHeight
  fee := call.fee
  antiSpamNonce := call.antiSpamNonce
  createdAt := call.txTime
  sig := call.sig
  recordIds := call.recordIds

/-! ## Assigning and splitting -/

/-- Each record got targets that it covers, in the order of the targets. -/
def Fits (eligible : List (LocalValueRecord H)) (targets : List ValueRange)
    (assignments : OrderedDict String (List ValueRange)) : Prop :=
  ∀ recordId, (assignedTo assignments recordId).Sublist targets ∧
    ∀ target ∈ assignedTo assignments recordId, ∃ record ∈ eligible,
      record.recordId = recordId ∧ record.value.containsRange target = true

/-- A target that follows all earlier ones and lies in an eligible record is assigned. -/
theorem exists_assignTarget {eligible : List (LocalValueRecord H)} {targets : List ValueRange}
    {assignments : OrderedDict String (List ValueRange)} {target : ValueRange}
    (fits : Fits eligible targets assignments)
    (after : ∀ earlier ∈ targets, earlier.valueEnd < target.valueBegin)
    (covered : ∃ record ∈ eligible, record.value.containsRange target = true) :
    ∃ next, assignTarget eligible assignments target = .ok next ∧
      Fits eligible (targets ++ [target]) next := by
  obtain ⟨holder, holder_mem, holds⟩ := covered
  have free : ∀ recordId, (assignedTo assignments recordId).any
      (fun existing => existing.intersects target) = false := by
    intro recordId
    refine List.any_eq_false.mpr fun existing member => Bool.not_eq_true _ ▸ ?_
    exact not_intersects_of_before (after existing ((fits recordId).1.subset member))
  have passes : (holder.value.containsRange target && !((assignments.get? holder.recordId).getD
      []).any fun existing => existing.intersects target) = true := by
    have holder_free := free holder.recordId
    rw [assignedTo] at holder_free
    rw [holds, holder_free]
    rfl
  cases found : eligible.find? (fun record => record.value.containsRange target &&
      !((assignments.get? record.recordId).getD []).any fun existing =>
        existing.intersects target) with
  | none =>
      have rejects := List.find?_eq_none.mp found holder holder_mem
      exact absurd passes rejects
  | some selected =>
      have selected_mem := List.mem_of_find?_eq_some found
      have selected_passes := List.find?_some found
      have contains : selected.value.containsRange target = true :=
        (Bool.and_eq_true_iff.mp selected_passes).1
      refine ⟨_, by simp only [assignTarget, found]; rfl, fun recordId => ?_⟩
      rw [assignedTo, OrderedDict.get?_set]
      split
      next same =>
        subst same
        obtain ⟨sublist, contained⟩ := fits selected.recordId
        refine ⟨sublist.append (List.Sublist.refl _), fun other member => ?_⟩
        rcases List.mem_append.mp member with earlier | added
        · exact contained other earlier
        · obtain rfl := List.mem_singleton.mp added
          exact ⟨selected, selected_mem, rfl, contains⟩
      · obtain ⟨sublist, contained⟩ := fits recordId
        exact ⟨sublist.trans (List.sublist_append_left _ _), contained⟩

theorem exists_assignTargets {eligible : List (LocalValueRecord H)} {done targets : List ValueRange}
    {assignments : OrderedDict String (List ValueRange)} (fits : Fits eligible done assignments)
    (ordered : InOrder (done ++ targets))
    (covered : ∀ target ∈ targets, ∃ record ∈ eligible, record.value.containsRange target = true) :
    ∃ final, targets.foldlM (assignTarget eligible) assignments = .ok final ∧
      Fits eligible (done ++ targets) final := by
  induction targets generalizing done assignments with
  | nil => exact ⟨assignments, rfl, by rwa [List.append_nil]⟩
  | cons target targets induction =>
      obtain ⟨target_covered, rest_covered⟩ := List.forall_mem_cons.mp covered
      have after : ∀ earlier ∈ done, earlier.valueEnd < target.valueBegin := fun earlier member =>
        (List.pairwise_append.mp ordered).2.2 earlier member target List.mem_cons_self
      obtain ⟨next, assigned, next_fits⟩ := exists_assignTarget fits after target_covered
      rw [← List.singleton_append, ← List.append_assoc] at ordered ⊢
      obtain ⟨final, rest_assigned, final_fits⟩ := induction next_fits ordered rest_covered
      exact ⟨final, by rw [List.singleton_append, List.foldlM_cons, assigned]; exact rest_assigned,
        final_fits⟩

/-- Records whose assigned targets lie in them one after another are split. -/
theorem exists_splitRecords (recordIds : ℕ → String)
    {assignments : OrderedDict String (List ValueRange)} {records : List (LocalValueRecord H)}
    (ordered : ∀ recordId, InOrder (assignedTo assignments recordId))
    (inside : ∀ record ∈ records, ∀ target ∈ assignedTo assignments record.recordId,
      record.value.containsRange target = true) (index : ℕ) :
    ∃ split, splitRecords recordIds assignments records index = .ok split := by
  induction records generalizing index with
  | nil => exact ⟨_, rfl⟩
  | cons record rest induction =>
      obtain ⟨first_inside, rest_inside⟩ := List.forall_mem_cons.mp inside
      have sorted : sortRanges ((assignments.get? record.recordId).getD []) =
          (assignments.get? record.recordId).getD [] :=
        sortRanges_of_inOrder (ordered record.recordId)
      simp only [splitRecords, sorted]
      split
      · obtain ⟨others, others_eq⟩ := induction rest_inside index
        simp only [bind_eq_ok, pure_eq_ok]
        exact ⟨_, others, others_eq, rfl⟩
      · obtain ⟨segments, segments_eq⟩ := exists_partitionRange (ordered record.recordId)
          first_inside
        obtain ⟨others, others_eq⟩ := induction rest_inside (index + segments.length)
        simp only [bind_eq_ok, pure_eq_ok]
        exact ⟨_, segments, segments_eq, others, others_eq, rfl⟩

variable [Crypto H] [DecidableEq H]

/-- `build_payment_bundle`. -/
def buildPaymentBundle (db : LocalWalletDB H) (publicKeyPem : Bytes) (chainId : ℕ)
    (call : PaymentCall) :
    Except String (Planned H (BundleSubmission H × PendingBundleContext H × OffChainTx)) := do
  require (0 < call.amount) "amount must be positive"
  require (db.pendingBundles.keys = []) "wallet already has a pending bundle"
  let paymentValues ← selectPaymentRanges db.address db.checkpoints db.records call.amount
  let tx ← OffChainTx.ofRanges db.address call.recipientAddr call.txTime paymentValues
  let ((submission, context), transactions) ←
    db.buildBundle (db.bundleCall publicKeyPem chainId call tx)
  pure ((submission, context, tx), transactions)

/-! ## What a wallet can pay -/

/-- The wallet has no pending bundle and selects the ranges of the transfer for the amount. -/
structure Pays (db : LocalWalletDB H) (publicKeyPem : Bytes) (call : PaymentCall)
    (tx : OffChainTx) :
    Prop where
  amount : 0 < call.amount
  free : db.pendingBundles.keys = []
  account : Crypto.addressFromPublicKeyPem H publicKeyPem = .ok db.address
  selected : selectPaymentRanges db.address db.checkpoints db.records call.amount =
    .ok tx.valueList
  transfer : OffChainTx.ofRanges db.address call.recipientAddr call.txTime tx.valueList = .ok tx

omit [Crypto H] [DecidableEq H] in
theorem covered_of_selectPaymentRanges {address : Address} {checkpoints : List (Checkpoint H)}
    {records : List (LocalValueRecord H)} {amount : ℤ} {ranges : List ValueRange}
    (selected : selectPaymentRanges address checkpoints records amount = .ok ranges) :
    ∀ range ∈ ranges, ∃ record ∈ spendableRecords records,
      record.value.containsRange range = true := by
  simp only [selectPaymentRanges, bind_eq_ok, require_eq_ok, exists_const, demand_eq_ok,
    pure_eq_ok] at selected
  obtain ⟨positive, plan, planned, unsorted, mapped, rfl⟩ := selected
  intro range member
  have payment := paymentPlan_of_makesUp (selectPlan_makesUp (Int.lt_toNat.mpr positive) planned)
  have range_mem := (List.perm_insertionSort rangeLe unsorted).mem_iff.mp member
  obtain ⟨entry, entry_mem, range_eq⟩ := exists_mem_of_mapM_result mapped range_mem
  obtain ⟨record, record_found, take_pos, take_le⟩ := payment.taken entry entry_mem
  obtain ⟨other, other_eq, _, contains⟩ := selectedRange_eq_ok record_found take_pos take_le
  obtain rfl := Except.ok.inj (range_eq.symm.trans other_eq)
  exact ⟨record, (sortedSpendableRecords_perm records).mem_iff.mp
    (List.mem_of_getElem? record_found), contains⟩

omit [Crypto H] [DecidableEq H] in
theorem ofRanges_eq_ok {senderAddr recipientAddr : Address} {txTime : ℤ} {ranges : List ValueRange}
    {tx : OffChainTx} (made : OffChainTx.ofRanges senderAddr recipientAddr txTime ranges = .ok tx) :
    tx.senderAddr = senderAddr ∧ tx.valueList = ranges := by
  rw [OffChainTx.ofRanges] at made
  split_ifs at made
  cases made
  exact ⟨rfl, rfl⟩

omit [DecidableEq H] in
/-- A bundle whose ranges lie apart, each in a spendable record, is built. -/
theorem exists_buildBundle {db : LocalWalletDB H} {call : BundleCall}
    (account : Crypto.addressFromPublicKeyPem H call.publicKeyPem = .ok db.address)
    (free : db.pendingBundles.keys = []) (nonempty : call.txList ≠ [])
    (senders : ∀ tx ∈ call.txList, tx.senderAddr = db.address) (seq_pos : 0 < call.seq)
    (ordered : InOrder (call.txList.flatMap OffChainTx.valueList))
    (covered : ∀ target ∈ call.txList.flatMap OffChainTx.valueList,
      ∃ record ∈ spendableRecords db.records, record.value.containsRange target = true) :
    ∃ context transactions, db.buildBundle call =
      .ok ((⟨bundleEnvelope call seq_pos ⟨db.address, call.txList, senders⟩,
        ⟨db.address, call.txList, senders⟩, call.publicKeyPem⟩, context), transactions) := by
  have none_assigned : Fits (spendableRecords db.records) [] ∅ := by
    intro recordId
    rw [assignedTo, OrderedDict.get?_empty]
    exact ⟨List.Sublist.refl _, List.forall_mem_nil _⟩
  obtain ⟨assignments, assigned, fits⟩ := exists_assignTargets none_assigned ordered covered
  have inside : ∀ record ∈ db.records, ∀ target ∈ assignedTo assignments record.recordId,
      record.value.containsRange target = true := by
    intro record record_mem target target_mem
    obtain ⟨holder, holder_mem, id_eq, holds⟩ := (fits record.recordId).2 target target_mem
    have holder_mem := (List.mem_filter.mp holder_mem).1
    rwa [← List.inj_on_of_nodup_map db.recordIds_nodup holder_mem record_mem id_eq]
  obtain ⟨split, split_eq⟩ := exists_splitRecords call.recordIds
    (fun recordId => List.Pairwise.sublist (fits recordId).1 ordered) inside 0
  simp only [buildBundle, ensureNonOverlappingTargets, sortRanges_of_inOrder ordered, sealBundle,
    dif_pos senders, dif_pos seq_pos, bind_eq_ok, require_eq_ok, exists_const, pure_eq_ok,
    Prod.mk.injEq, Prod.exists]
  exact ⟨_, _, db.address, account, rfl, free, nonempty, _,
    ⟨neighboursIntersect_of_inOrder ordered, rfl⟩, assignments, assigned, split, split_eq, _, _,
    rfl, ⟨rfl, rfl⟩, rfl⟩

/-! ## Building and storing a payment -/

/-- The submission of a payment: the sidecar of its transfer under a signed envelope. -/
def paymentSubmission (db : LocalWalletDB H) (publicKeyPem : Bytes) (chainId : ℕ)
    (call : PaymentCall) (tx : OffChainTx) (sender_eq : tx.senderAddr = db.address) :
    BundleSubmission H :=
  let sidecar : BundleSidecar := ⟨db.address, [tx], fun _ member =>
    List.mem_singleton.mp member ▸ sender_eq⟩
  ⟨bundleEnvelope (db.bundleCall publicKeyPem chainId call tx) (Nat.succ_pos _) sidecar, sidecar,
    publicKeyPem⟩

section Payment

variable {db : LocalWalletDB H} {publicKeyPem : Bytes} {chainId : ℕ} {call : PaymentCall}
  {tx : OffChainTx}

omit [DecidableEq H] in
theorem Pays.sender_eq (pays : db.Pays publicKeyPem call tx) : tx.senderAddr = db.address :=
  (ofRanges_eq_ok pays.transfer).1

omit [DecidableEq H] in
/-- The transfer of a payment is determined. -/
theorem Pays.unique {other : OffChainTx} (pays : db.Pays publicKeyPem call tx)
    (others : db.Pays publicKeyPem call other) : tx = other := by
  have ranges_eq : tx.valueList = other.valueList :=
    Except.ok.inj (pays.selected.symm.trans others.selected)
  have transfer := pays.transfer
  rw [ranges_eq] at transfer
  exact Except.ok.inj (transfer.symm.trans others.transfer)

omit [DecidableEq H] in
theorem Pays.exists_built (pays : db.Pays publicKeyPem call tx) (chainId : ℕ) :
    ∃ context transactions, db.buildBundle (db.bundleCall publicKeyPem chainId call tx) =
      .ok ((db.paymentSubmission publicKeyPem chainId call tx pays.sender_eq, context),
        transactions) := by
  have ranges_eq : (db.bundleCall publicKeyPem chainId call tx).txList.flatMap
      OffChainTx.valueList = tx.valueList := List.flatMap_singleton _ _
  refine exists_buildBundle pays.account pays.free (List.cons_ne_nil _ _) _ (Nat.succ_pos _) ?_ ?_
  · rw [ranges_eq]
    exact tx.valueList_sorted
  · rw [ranges_eq]
    exact covered_of_selectPaymentRanges pays.selected

omit [DecidableEq H] in
theorem buildPaymentBundle_eq_ok {submission : BundleSubmission H}
    {context : PendingBundleContext H} {transactions : List (Transaction H)} :
    db.buildPaymentBundle publicKeyPem chainId call =
      .ok ((submission, context, tx), transactions) ↔
      db.Pays publicKeyPem call tx ∧
        db.buildBundle (db.bundleCall publicKeyPem chainId call tx) =
          .ok ((submission, context), transactions) := by
  simp only [buildPaymentBundle, bind_eq_ok, require_eq_ok, exists_const, pure_eq_ok,
    Prod.mk.injEq, Prod.exists]
  constructor
  · intro planned
    obtain ⟨amount, free, ranges, selected, other, transfer, other_submission, other_context,
      other_transactions, built, ⟨submission_eq, context_eq, tx_eq⟩, transactions_eq⟩ := planned
    subst submission_eq context_eq tx_eq transactions_eq
    obtain ⟨marked, bundle, -, -⟩ := buildBundle_built built
    obtain rfl := (ofRanges_eq_ok transfer).2
    exact ⟨⟨amount, free, bundle.account, selected, transfer⟩, built⟩
  · rintro ⟨pays, built⟩
    exact ⟨pays.amount, pays.free, tx.valueList, pays.selected, tx, pays.transfer, submission,
      context, transactions, built, ⟨rfl, rfl, rfl⟩, rfl⟩

variable (publicKeyPem chainId) in
/-- A payment is built exactly when the wallet can pay, and what is stored is its pending bundle. -/
theorem execute_buildPaymentBundle (fresh : db.FreshIds call.recordIds) :
    ((∀ tx, ¬ db.Pays publicKeyPem call tx) ∧ ∃ message,
      db.execute (db.buildPaymentBundle publicKeyPem chainId call) = (.error message, db)) ∨
    ∃ tx context next, ∃ pays : db.Pays publicKeyPem call tx,
      db.execute (db.buildPaymentBundle publicKeyPem chainId call) =
        (.ok (db.paymentSubmission publicKeyPem chainId call tx pays.sender_eq, context, tx),
          next) ∧
      next.address = db.address ∧ next.getPendingBundle context.seq = some context := by
  cases planned : db.buildPaymentBundle publicKeyPem chainId call with
  | error message =>
      refine .inl ⟨fun tx pays => ?_, message, rfl⟩
      obtain ⟨context, transactions, built⟩ := pays.exists_built chainId
      rw [buildPaymentBundle_eq_ok.mpr ⟨pays, built⟩] at planned
      cases planned
  | ok result =>
      obtain ⟨⟨submission, context, tx⟩, transactions⟩ := result
      obtain ⟨pays, built⟩ := buildPaymentBundle_eq_ok.mp planned
      obtain ⟨other, others, other_built⟩ := pays.exists_built chainId
      obtain ⟨⟨rfl, rfl⟩, rfl⟩ := by
        simpa only [Except.ok.injEq, Prod.mk.injEq] using built.symm.trans other_built
      obtain ⟨marked, bundle, -, rfl⟩ := buildBundle_built built
      have nodup : ((marked.map Prod.fst).map LocalValueRecord.recordId).Nodup := by
        rw [List.map_map]
        exact bundle.split.ids_nodup fresh
      refine .inr ⟨tx, context, db.afterBundle context (marked.map Prod.fst) nodup, pays, ?_, rfl,
        OrderedDict.get?_set_self _ _ _⟩
      rw [execute, bundle.commitAll_eq nodup]

end Payment

end LocalWalletDB

end EZChain
