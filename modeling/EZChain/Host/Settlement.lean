import EZChain.Host.FailedPayments
import EZChain.Host.Packing
import EZChain.Host.Rollback

/-!
# Settling bundles in order

A wallet has settled the bundles of its account up to a head reference: its last confirmed unit
stands under that reference, and no row is above it.  The receipt of the next bundle then passes the
check of its previous reference and finds its own reference unused, and applying it moves the head
to the unit that it confirms.
-/

namespace EZChain

open Checks

variable {H : Type}

namespace LocalWalletDB

/-! ## Tables that other calls leave alone -/

/-- The tables of settled and pending bundles are the same. -/
structure SameBundles (db other : LocalWalletDB H) : Prop extends db.SameSeqs other where
  confirmedUnits : other.confirmedUnits = db.confirmedUnits

theorem SameBundles.refl (db : LocalWalletDB H) : db.SameBundles db := ⟨.refl db, rfl⟩

section Crypto

variable [Crypto H] [DecidableEq H] {db : LocalWalletDB H}

theorem SameBundles.perform {call : WalletCall H} (passive : call.Passive) :
    db.SameBundles (db.perform call) := by
  refine ⟨.perform passive, ?_⟩
  cases call with
  | addGenesisValue value recordId =>
      by_cases taken : recordId ∈ db.records.map LocalValueRecord.recordId
      · rw [perform_addGenesisValue_of_taken taken]
      · rw [perform_addGenesisValue taken]
        rfl
  | receiveTransfer package context recordId =>
      obtain ⟨newest, stores⟩ | ⟨sidecars, next_eq⟩ :=
        db.perform_receiveTransfer package context recordId
      · rw [stores.perform_eq]
        rfl
      · rw [next_eq]
        rfl
  | markReceiptMissing seq =>
      cases found : db.getPendingBundle seq with
      | none => rw [perform_markReceiptMissing_of_none found]
      | some context =>
          rw [perform_markReceiptMissing found]
          rfl
  | observeCanonicalHeader header => rfl
  | buildBundle call => exact passive.elim
  | onReceiptConfirmed receipt => exact passive.elim
  | rollbackPendingBundle seq => exact passive.elim

/-- Only an observed header changes the known headers. -/
theorem canonicalHeaders_perform {call : WalletCall H} (passive : call.Passive)
    (silent : ∀ header, call ≠ .observeCanonicalHeader header) :
    (db.perform call).canonicalHeaders = db.canonicalHeaders := by
  cases call with
  | addGenesisValue value recordId =>
      by_cases taken : recordId ∈ db.records.map LocalValueRecord.recordId
      · rw [perform_addGenesisValue_of_taken taken]
      · rw [perform_addGenesisValue taken]
        rfl
  | receiveTransfer package context recordId =>
      obtain ⟨newest, stores⟩ | ⟨sidecars, next_eq⟩ :=
        db.perform_receiveTransfer package context recordId
      · rw [stores.perform_eq]
        rfl
      · rw [next_eq]
        rfl
  | markReceiptMissing seq =>
      cases found : db.getPendingBundle seq with
      | none => rw [perform_markReceiptMissing_of_none found]
      | some context =>
          rw [perform_markReceiptMissing found]
          rfl
  | observeCanonicalHeader header => exact absurd rfl (silent header)
  | buildBundle call => exact passive.elim
  | onReceiptConfirmed receipt => exact passive.elim
  | rollbackPendingBundle seq => exact passive.elim

end Crypto

/-! ## Settled up to a head -/

section Settled

variable [Crypto H]

/-- The wallet has settled the bundles of its account up to the head. -/
structure Follows (db : LocalWalletDB H) (head : Option (BundleRef H)) : Prop where
  /-- A receipt is stored under the seq of its reference. -/
  receipts : ∀ entry ∈ db.receipts.entries, entry.2.1.seq = entry.1
  units : ∀ unit ∈ db.confirmedUnits.values, unit.receipt.seq ≤ db.receivedSeq
  last : (db.getConfirmedUnit db.receivedSeq).map confirmedRef = head
  seq : (head.map BundleRef.seq).getD 0 = db.receivedSeq

variable {db : LocalWalletDB H} {head : Option (BundleRef H)}

theorem follows_new (address : Address) (genesisBlockHash : H) :
    (new address genesisBlockHash).Follows none where
  receipts := List.forall_mem_nil _
  units := List.forall_mem_nil _
  last := rfl
  seq := rfl

theorem Follows.of_sameBundles {other : LocalWalletDB H} (follows : db.Follows head)
    (same : db.SameBundles other) : other.Follows head := by
  have unit_eq : other.getConfirmedUnit = db.getConfirmedUnit := by
    funext seq
    rw [getConfirmedUnit, same.confirmedUnits, same.address, getConfirmedUnit]
  refine ⟨?_, ?_, ?_, ?_⟩
  · rw [same.receipts]
    exact follows.receipts
  · rw [same.confirmedUnits, same.receivedSeq_eq]
    exact follows.units
  · rw [same.receivedSeq_eq, unit_eq]
    exact follows.last
  · rw [same.receivedSeq_eq]
    exact follows.seq

variable {receipt : Receipt H} {context : PendingBundleContext H}

/-- The next receipt finds the unit that it refers to. -/
theorem Follows.checkPrevRef [DecidableEq H] (follows : db.Follows receipt.prevRef)
    (next : receipt.seq = db.receivedSeq + 1) : db.checkPrevRef receipt = .ok () := by
  have last := follows.last
  have seq := follows.seq
  rw [LocalWalletDB.checkPrevRef]
  cases prev_eq : receipt.prevRef with
  | none =>
      rw [prev_eq] at seq
      have first : receipt.seq = 1 := by
        rw [next, ← seq]
        rfl
      rw [if_pos first, require_of rfl]
  | some ref =>
      rw [prev_eq] at last seq
      have ref_seq : ref.seq = db.receivedSeq := seq
      have later : receipt.seq ≠ 1 := by
        have ref_pos := ref.seq_pos
        omega
      obtain ⟨unit, found, ref_eq⟩ := Option.map_eq_some_iff.mp last
      have earlier_seq : receipt.seq - 1 = db.receivedSeq := by omega
      rw [if_neg later, earlier_seq, found]
      simp only [demand, bind_eq_ok, require_eq_ok]
      exact ⟨unit, rfl, congrArg some ref_eq⟩

theorem Follows.refUnused (follows : db.Follows head) : db.RefUnused receipt context := by
  intro entry member ref_eq
  rw [← follows.receipts entry member, ref_eq]
  rfl

variable [DecidableEq H]

/-- Applying the next receipt moves the head to its unit. -/
theorem Follows.afterReceipt (follows : db.Follows head)
    (next : receipt.seq = db.receivedSeq + 1)
    (sender : context.sidecar.senderAddr = db.address) :
    (db.afterReceipt receipt context).Follows
      (some (confirmedRef (confirmedUnit receipt context))) := by
  let unit := confirmedUnit receipt context
  let after := db.afterReceipt receipt context
  have received_eq : after.receivedSeq = receipt.seq :=
    foldr_max_keys_set db.receipts _ (by rw [receivedSeq] at next; omega)
  have mem_units : ∀ other, other ∈ after.confirmedUnits.values →
      other = unit ∨ other ∈ db.confirmedUnits.values := by
    intro other member
    obtain ⟨key, found⟩ := (OrderedDict.mem_values_iff _ _).mp member
    have found : (db.confirmedUnits.set (confirmedRef unit) unit).get? key = some other := found
    rw [OrderedDict.get?_set] at found
    split at found
    · exact .inl (Option.some.inj found).symm
    · exact .inr ((OrderedDict.mem_values_iff _ _).mpr ⟨key, found⟩)
  have unit_mem : unit ∈ after.confirmedUnits.values :=
    (OrderedDict.mem_values_iff _ _).mpr ⟨_, OrderedDict.get?_set_self _ _ _⟩
  have unit_found : after.getConfirmedUnit receipt.seq = some unit := by
    have matching : (unit.bundleSidecar.senderAddr = after.address &&
        unit.receipt.seq = receipt.seq) = true := by
      simp only [Bool.and_eq_true, decide_eq_true_eq]
      exact ⟨sender, rfl⟩
    cases found : after.getConfirmedUnit receipt.seq with
    | none => exact absurd matching (List.find?_eq_none.mp found unit unit_mem)
    | some other =>
        have other_matching := List.find?_some found
        simp only [Bool.and_eq_true, decide_eq_true_eq] at other_matching
        rcases mem_units other (List.mem_of_find?_eq_some found) with rfl | earlier
        · rfl
        · have earlier_le := follows.units other earlier
          omega
  refine ⟨?_, ?_, ?_, ?_⟩
  · intro entry member
    have found : (db.receipts.set receipt.seq (receiptRef receipt context.bundleHash,
        receipt)).get? entry.1 = some entry.2 := (OrderedDict.get?_eq_some_iff _ _ _).mpr member
    rw [OrderedDict.get?_set] at found
    split at found
    next same =>
      rw [← Option.some.inj found, ← same]
      rfl
    · exact follows.receipts _ ((OrderedDict.get?_eq_some_iff _ _ _).mp found)
  · intro other member
    rw [received_eq]
    rcases mem_units other member with rfl | earlier
    · exact le_rfl
    · have earlier_le := follows.units other earlier
      omega
  · rw [received_eq, unit_found]
    rfl
  · rw [received_eq]
    rfl

end Settled

/-! ## Building a payment -/

section Building

variable [Crypto H] [DecidableEq H] {db : LocalWalletDB H}

theorem sameBundles_afterBundle (context : PendingBundleContext H)
    (records : List (LocalValueRecord H)) (nodup : (records.map LocalValueRecord.recordId).Nodup) :
    (db.withPendingBundle context).SameBundles (db.afterBundle context records nodup) :=
  ⟨⟨rfl, rfl, rfl⟩, rfl⟩

/-- A payment that the wallet can make is stored as its pending bundle, at the next seq. -/
theorem Pays.execute_eq {publicKeyPem : Bytes} {call : PaymentCall} {tx : OffChainTx}
    (pays : db.Pays publicKeyPem call tx) (chainId : ℕ) (fresh : db.FreshIds call.recordIds) :
    ∃ context next, db.execute (db.buildPaymentBundle publicKeyPem chainId call) =
        (.ok (db.paymentSubmission publicKeyPem chainId call tx pays.sender_eq, context, tx),
          next) ∧
      context.envelope =
        (db.paymentSubmission publicKeyPem chainId call tx pays.sender_eq).envelope ∧
      context.sidecar =
        (db.paymentSubmission publicKeyPem chainId call tx pays.sender_eq).sidecar ∧
      context.seq = db.nextSequence ∧ context.bundleHash = context.envelope.bundleHash ∧
      (db.withPendingBundle context).SameBundles next ∧
      next.canonicalHeaders = db.canonicalHeaders := by
  obtain ⟨context, transactions, built⟩ := pays.exists_built chainId
  obtain ⟨marked, bundle, submission_eq, rfl⟩ := buildBundle_built built
  have nodup : ((marked.map Prod.fst).map LocalValueRecord.recordId).Nodup := by
    rw [List.map_map]
    exact bundle.split.ids_nodup fresh
  have planned := buildPaymentBundle_eq_ok.mpr ⟨pays, built⟩
  obtain ⟨seq_eq, -, -, hash_eq⟩ := PaymentNetwork.name_of_built bundle
  refine ⟨context, db.afterBundle context (marked.map Prod.fst) nodup, ?_, ?_, ?_, seq_eq,
    hash_eq.symm, sameBundles_afterBundle context _ nodup, rfl⟩
  · rw [planned, execute, bundle.commitAll_eq nodup]
  · rw [submission_eq]
  · rw [submission_eq]

end Building

end LocalWalletDB

end EZChain
