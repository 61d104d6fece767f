import EZChain.Transfer.DoubleSpend
import EZChain.Wallet.Conservation

/-!
# Credited values

A received package is recognised by its hash, and its value is not compared with the values that
the wallet holds.  An atom is therefore credited once exactly as long as every stored package
brings a range that intersects no live record.
-/

namespace EZChain

open Checks Cover Runs

/-- All members of `LocalValueStatus`. -/
def LocalValueStatus.members : List LocalValueStatus :=
  [.verifiedSpendable, .pendingBundle, .pendingConfirmation, .receiptPending, .receiptMissing,
    .lockedForVerification, .archived]

/-- A package that a wallet is asked to receive. -/
structure Delivery (H : Type) where
  /-- The package that comes. -/
  package : TransferPackage H
  /-- What its validator knows. -/
  context : ValidationContext H
  /-- A fresh record id. -/
  recordId : String

theorem targetValue_eq_of_hash_eq {H : Type} [Crypto H] (ideal : IdealHash H)
    {left right : TransferPackage H}
    (equality : transferPackageHash left = transferPackageHash right) :
    left.targetValue = right.targetValue := by
  have chunks_eq := ideal equality
  simp only [TransferPackage.canonicalize, List.cons.injEq, Chunk.encoded.injEq, Canon.dict.injEq,
    Prod.mk.injEq, true_and, and_true] at chunks_eq
  exact ValueRange.canonicalize_injective chunks_eq.2.1

namespace LocalWalletDB

variable {H : Type}

/-! ## Balances -/

/-- `balance_breakdown`. -/
def balanceBreakdown (db : LocalWalletDB H) (status : LocalValueStatus) : ℕ :=
  ((db.records.filter fun record => record.localStatus = status).map fun record =>
    record.value.size).sum

/-- `get_balance`. -/
def getBalance (db : LocalWalletDB H) : Option LocalValueStatus → ℕ
  | some status => db.balanceBreakdown status
  | none => ((LocalValueStatus.members.filter fun status => status ≠ .archived).map
      db.balanceBreakdown).sum

/-- `total_balance`. -/
def totalBalance (db : LocalWalletDB H) : ℕ := db.getBalance none

theorem totalBalance_eq_sum (db : LocalWalletDB H) : db.totalBalance =
    ((db.records.filter fun record => Live record).map fun record => record.value.size).sum := by
  have of_records : ∀ records : List (LocalValueRecord H),
      ((LocalValueStatus.members.filter fun status => status ≠ .archived).map fun status =>
        ((records.filter fun record => record.localStatus = status).map fun record =>
          record.value.size).sum).sum =
        ((records.filter fun record => Live record).map fun record => record.value.size).sum := by
    intro records
    induction records with
    | nil => rfl
    | cons record records induction =>
        rw [show LocalValueStatus.members.filter (fun status => status ≠ .archived) =
          [.verifiedSpendable, .pendingBundle, .pendingConfirmation, .receiptPending,
            .receiptMissing, .lockedForVerification] from rfl] at induction ⊢
        cases status_eq : record.localStatus <;>
          simp [List.filter_cons, Live, status_eq] at induction ⊢ <;> omega
  exact of_records db.records

theorem LiveApart.totalBalance_eq_card {db : LocalWalletDB H} (apart : db.LiveApart) :
    db.totalBalance = db.liveAtoms.card := by
  rw [totalBalance_eq_sum, liveAtoms, heldAtoms, ← apart.card_cover]
  simp only [recordAtoms, ValueRange.card_atoms]

/-! ## One more record -/

section Stored

variable {db : LocalWalletDB H} {record : LocalValueRecord H}
  (fresh : record.recordId ∉ db.records.map LocalValueRecord.recordId)

theorem liveApart_withRecord_iff (live : Live record) :
    (db.withRecord record fresh).LiveApart ↔
      db.LiveApart ∧ Disjoint db.liveAtoms (recordAtoms record) := by
  have perm := (perm_records_withRecords db (db.nodup_concat_recordId fresh)).filter
    fun record => decide (Live record)
  have live_only : [record].filter (fun record => decide (Live record)) = [record] := by
    rw [List.filter_singleton, decide_eq_true live]
    rfl
  rw [LiveApart, withRecord, apart_perm perm, List.filter_append, live_only, apart_append_iff,
    cover_cons, cover_nil, Finset.union_empty]
  exact and_congr_right fun _ => and_iff_right (List.pairwise_singleton _ _)

theorem liveAtoms_withRecord (live : Live record) :
    (db.withRecord record fresh).liveAtoms = db.liveAtoms ∪ recordAtoms record := by
  ext atom
  simp only [liveAtoms, mem_heldAtoms, withRecord, mem_records_withRecords, List.mem_append,
    List.mem_singleton, Finset.mem_union, or_and_right, exists_or, exists_eq_left, live,
    true_and]

end Stored

/-! ## Deliveries -/

section Deliveries

variable [Crypto H] [DecidableEq H]

/-- The wallet after a call of `receive_transfer`, which may raise. -/
def receive (db : LocalWalletDB H) (delivery : Delivery H) : LocalWalletDB H :=
  db.perform (.receiveTransfer delivery.package delivery.context delivery.recordId)

/-- A package that is stored brings a range that intersects no live record. -/
def BringsNewRange (db : LocalWalletDB H) (delivery : Delivery H) : Prop :=
  (∃ newest, db.Stores delivery.package delivery.context delivery.recordId newest) →
    ∀ record ∈ db.records, Live record →
      record.value.intersects delivery.package.targetValue = false

/-- The atoms that a wallet held or was sent. -/
def sentAtoms (db : LocalWalletDB H) (deliveries : List (Delivery H)) : Finset ℕ :=
  db.liveAtoms ∪ cover (fun delivery => delivery.package.targetValue.atoms) deliveries

/-- No atom lies in two live records, and the balance counts no atom twice. -/
structure CreditedOnce (db : LocalWalletDB H) (sent : Finset ℕ) : Prop where
  apart : db.LiveApart
  balance : db.totalBalance ≤ sent.card

variable {db : LocalWalletDB H} {delivery : Delivery H}

theorem live_receivedRecord (db : LocalWalletDB H) (package : TransferPackage H)
    (recordId : String) (newest : ConfirmedBundleUnit H) :
    Live (db.receivedRecord package recordId newest) :=
  LocalValueStatus.noConfusion

omit [Crypto H] [DecidableEq H] in
theorem disjoint_liveAtoms_iff {value : ValueRange} :
    Disjoint db.liveAtoms value.atoms ↔
      ∀ record ∈ db.records, Live record → record.value.intersects value = false := by
  simp only [← ValueRange.disjoint_atoms_iff, Finset.disjoint_left, liveAtoms, mem_heldAtoms,
    recordAtoms]
  constructor
  · rintro disjoint record member live atom inside
    exact disjoint ⟨record, member, live, inside⟩
  · rintro disjoint atom ⟨record, member, live, inside⟩
    exact disjoint record member live inside

theorem liveApart_receive_iff :
    (db.receive delivery).LiveApart ↔ db.LiveApart ∧ db.BringsNewRange delivery := by
  by_cases stored : ∃ newest, db.Stores delivery.package delivery.context delivery.recordId newest
  · obtain ⟨newest, stores⟩ := stored
    have brings_iff : db.BringsNewRange delivery ↔
        Disjoint db.liveAtoms delivery.package.targetValue.atoms :=
      (forall_prop_of_true ⟨newest, stores⟩).trans disjoint_liveAtoms_iff.symm
    rw [receive, stores.perform_eq, brings_iff]
    exact liveApart_withRecord_iff stores.fresh
      (db.live_receivedRecord delivery.package delivery.recordId newest)
  · obtain stores | ⟨sidecars, next_eq⟩ := db.perform_receiveTransfer delivery.package
      delivery.context delivery.recordId
    · exact absurd stores stored
    · rw [receive, next_eq]
      exact (and_iff_left (forall_prop_of_false stored |>.mpr trivial)).symm

theorem liveAtoms_receive_subset :
    (db.receive delivery).liveAtoms ⊆ db.liveAtoms ∪ delivery.package.targetValue.atoms := by
  obtain ⟨newest, stores⟩ | ⟨sidecars, next_eq⟩ := db.perform_receiveTransfer delivery.package
    delivery.context delivery.recordId
  · rw [receive, stores.perform_eq]
    exact (liveAtoms_withRecord stores.fresh
      (db.live_receivedRecord delivery.package delivery.recordId newest)).subset
  · rw [receive, next_eq]
    exact Finset.subset_union_left

theorem liveAtoms_subset_sentAtoms (db : LocalWalletDB H) (deliveries : List (Delivery H)) :
    (deliveries.foldl receive db).liveAtoms ⊆ db.sentAtoms deliveries := by
  induction deliveries generalizing db with
  | nil => exact Finset.subset_union_left
  | cons delivery rest induction =>
      calc ((delivery :: rest).foldl receive db).liveAtoms
          ⊆ (db.receive delivery).sentAtoms rest := induction (db.receive delivery)
        _ ⊆ db.liveAtoms ∪ delivery.package.targetValue.atoms ∪
            cover (fun delivery => delivery.package.targetValue.atoms) rest :=
          Finset.union_subset_union_left liveAtoms_receive_subset
        _ = db.sentAtoms (delivery :: rest) := Finset.union_assoc _ _ _

/-- The live records stay apart exactly as long as every stored package brings a new range. -/
theorem liveApart_receiveAll_iff (db : LocalWalletDB H) (deliveries : List (Delivery H)) :
    (∀ delivered, delivered <+: deliveries → (delivered.foldl receive db).LiveApart) ↔
      db.LiveApart ∧ Along receive BringsNewRange db deliveries := by
  induction deliveries generalizing db with
  | nil => simp
  | cons delivery rest induction =>
      have split_first : (∀ delivered, delivered <+: delivery :: rest →
          (delivered.foldl receive db).LiveApart) ↔ db.LiveApart ∧
            ∀ delivered, delivered <+: rest →
              (delivered.foldl receive (db.receive delivery)).LiveApart := by
        simp only [List.prefix_cons_iff]
        constructor
        · intro apart
          exact ⟨apart [] (.inl rfl), fun delivered before =>
            apart (delivery :: delivered) (.inr ⟨delivered, rfl, before⟩)⟩
        · rintro ⟨apart, rest_apart⟩ delivered (rfl | ⟨later, rfl, before⟩)
          · exact apart
          · exact rest_apart later before
      rw [split_first, induction, liveApart_receive_iff, along_cons]
      tauto

end Deliveries

section Examples

open SymbolicDigest ChainStateV2 V2TransferValidator

/-- A part of the value of the first package, presented with the same history. -/
def narrowPackage : TransferPackage SymbolicDigest :=
  { firstPackage with targetValue := ⟨0, 4, by decide⟩ }

theorem narrowPackage_validated : validateTransfer aliceContext narrowPackage.targetTx
    narrowPackage.targetValue bob narrowPackage.witnessV2 = .ok () := by
  apply (validateTransfer_genesis_eq_ok _ _ _ _ _ _ _ _ _).mpr
  refine ⟨(checkSegment_eq_ok _ _ _ _ _ _).mpr ⟨peerUnit genesis 1 firstEntry, [], rfl, ?_⟩, rfl⟩
  exact
    { owner_eq := rfl
      recipient_eq := rfl
      covered := List.any_eq_true.mp (by decide)
      once := by decide
      receipts := List.forall_mem_singleton.mpr (receiptAccepted_peerUnit firstEntry_valid)
      linked := .singleton _
      latestClean := by decide
      olderClean := by simp }

/-- Bob's empty wallet. -/
def emptyWallet : LocalWalletDB SymbolicDigest := .new bob (filled 0)

theorem emptyWallet_stores : emptyWallet.Stores firstPackage aliceContext "whole"
    (peerUnit genesis 1 firstEntry) := by
  have validated := (validateTransferPackage_ok_iff _ _ _).mp firstPackage_accepted
  exact
    { new := List.not_mem_nil
      validated := validated
      newest_eq := rfl
      fresh := List.not_mem_nil }

/-- Bob's wallet after the first package. -/
def wholeWallet : LocalWalletDB SymbolicDigest :=
  emptyWallet.afterReceiving firstPackage
    (emptyWallet.receivedRecord firstPackage "whole" (peerUnit genesis 1 firstEntry))
    emptyWallet_stores.fresh

theorem wholeWallet_stores : wholeWallet.Stores narrowPackage aliceContext "part"
    (peerUnit genesis 1 firstEntry) where
  new := by
    intro member
    have value_eq := targetValue_eq_of_hash_eq idealHash (List.mem_singleton.mp member)
    cases value_eq
  validated := narrowPackage_validated
  newest_eq := rfl
  fresh := (by decide : "part" ∉ ["whole"])

/-- The first package and a part of it. -/
def partTwice : List (Delivery SymbolicDigest) :=
  [⟨firstPackage, aliceContext, "whole"⟩, ⟨narrowPackage, aliceContext, "part"⟩]

theorem receive_partTwice : partTwice.foldl receive emptyWallet = wholeWallet.afterReceiving
    narrowPackage (wholeWallet.receivedRecord narrowPackage "part" (peerUnit genesis 1 firstEntry))
    wholeWallet_stores.fresh := by
  have whole : emptyWallet.receive ⟨firstPackage, aliceContext, "whole"⟩ = wholeWallet :=
    emptyWallet_stores.perform_eq
  rw [partTwice, List.foldl_cons, List.foldl_cons, List.foldl_nil, whole]
  exact wholeWallet_stores.perform_eq

end Examples

end LocalWalletDB

end EZChain
