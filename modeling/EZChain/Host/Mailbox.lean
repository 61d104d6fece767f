import EZChain.Host.LocalSessions
import EZChain.Wallet.Crash
import EZChain.Wallet.Credit

/-!
# Mailbox

Packages are handed over through a mailbox that all local sessions share.  A session receives the
pending packages of its wallet and then marks them as claimed; the process may stop in between.  A
package that was received before is refused, and the refusal claims it.
-/

namespace EZChain

open Checks Runs

variable {H : Type}

/-! ## The mailbox -/

/-- `V2ReceivedTransferEvent`. -/
structure V2ReceivedTransferEvent (H : Type) where
  packageHash : H
  senderAddr : Address
  recipientAddr : Address
  targetTx : OffChainTx
  targetValue : ValueRange

variable [Crypto H]

/-- The order of `list_pending_packages`. -/
def mailboxBefore (left right : H × MailboxRow H) : Prop :=
  left.2.createdAt < right.2.createdAt ∨ left.2.createdAt = right.2.createdAt ∧
    (Crypto.digestBytes left.1).bytes ≤ (Crypto.digestBytes right.1).bytes

instance : DecidableRel (mailboxBefore (H := H)) := fun _ _ => inferInstanceAs (Decidable (_ ∨ _))

/-- The height of the newest unit of a pending package. -/
def MailboxRow.height (row : MailboxRow H) : ℤ :=
  match row.package.witnessV2.confirmedBundleChain with
  | [] => -1
  | newest :: _ => newest.receipt.headerLite.height

/-- The order in which pending packages are received. -/
def receivedBefore (left right : H × MailboxRow H) : Prop :=
  left.2.height < right.2.height ∨ left.2.height = right.2.height ∧ mailboxBefore left right

instance : DecidableRel (receivedBefore (H := H)) := fun _ _ => inferInstanceAs (Decidable (_ ∨ _))

namespace TransferMailboxStore

variable [DecidableEq H]

/-- `list_pending_packages`. -/
def listPendingPackages (mailbox : TransferMailboxStore H) (recipientAddr : Address) :
    List (H × MailboxRow H) :=
  (mailbox.entries.filter fun entry =>
    entry.2.recipientAddr = recipientAddr ∧ entry.2.claimedAt = none).insertionSort mailboxBefore

/-- `mark_claimed`: an update without a matching row does nothing. -/
def markClaimed (mailbox : TransferMailboxStore H) (packageHash : H) (claimedAt : ℤ) :
    TransferMailboxStore H :=
  match mailbox.get? packageHash with
  | none => mailbox
  | some row => mailbox.set packageHash { row with claimedAt := some claimedAt }

theorem get?_enqueuePackage_eq_some {mailbox : TransferMailboxStore H}
    {senderAddr recipientAddr : Address} {package : TransferPackage H} {createdAt : ℤ}
    {packageHash : H} {row : MailboxRow H}
    (stored : (mailbox.enqueuePackage senderAddr recipientAddr package createdAt).get? packageHash =
      some row) :
    transferPackageHash package = packageHash ∧ row.package = package ∧
        row.recipientAddr = recipientAddr ∧
        (row.claimedAt = none ∨ ∃ existing, mailbox.get? packageHash = some existing ∧
          existing.claimedAt = row.claimedAt) ∨
      mailbox.get? packageHash = some row := by
  rw [enqueuePackage] at stored
  rw [OrderedDict.get?_set] at stored
  split at stored
  next same =>
    subst same
    refine .inl ⟨rfl, ?_⟩
    split at stored
    · obtain rfl := Option.some.inj stored
      exact ⟨rfl, rfl, .inl rfl⟩
    next existing existing_eq =>
      obtain rfl := Option.some.inj stored
      exact ⟨rfl, rfl, .inr ⟨existing, existing_eq, rfl⟩⟩
  · exact .inr stored

omit [Crypto H] in
theorem get?_markClaimed_eq_some {mailbox : TransferMailboxStore H} {packageHash other : H}
    {claimedAt : ℤ} {row : MailboxRow H}
    (stored : (mailbox.markClaimed packageHash claimedAt).get? other = some row) :
    ∃ original, mailbox.get? other = some original ∧ row.package = original.package ∧
      row.recipientAddr = original.recipientAddr ∧
      row.claimedAt = if packageHash = other then some claimedAt else original.claimedAt := by
  rw [markClaimed] at stored
  split at stored
  next absent =>
    refine ⟨row, stored, rfl, rfl, (if_neg ?_).symm⟩
    rintro rfl
    simp [absent] at stored
  next original original_eq =>
    rw [OrderedDict.get?_set] at stored
    split at stored
    next same =>
      subst same
      obtain rfl := Option.some.inj stored
      exact ⟨original, original_eq, rfl, rfl, (if_pos rfl).symm⟩
    next differ => exact ⟨row, stored, rfl, rfl, (if_neg differ).symm⟩

omit [Crypto H] in
theorem exists_markClaimed {mailbox : TransferMailboxStore H} {packageHash other : H}
    {claimedAt : ℤ} {row : MailboxRow H} {address : Address}
    (stored : row ∈ mailbox.get? other) (recipient_eq : row.recipientAddr = address) :
    ∃ later ∈ (mailbox.markClaimed packageHash claimedAt).get? other,
      later.recipientAddr = address := by
  rw [markClaimed]
  split
  · exact ⟨row, stored, recipient_eq⟩
  next original original_eq =>
    rw [OrderedDict.get?_set]
    split
    next same =>
      subst same
      obtain rfl := Option.some.inj (stored.symm.trans original_eq)
      exact ⟨_, rfl, recipient_eq⟩
    · exact ⟨row, stored, recipient_eq⟩

end TransferMailboxStore

theorem targetTx_eq_of_hash_eq (ideal : IdealHash H) {left right : TransferPackage H}
    (equality : transferPackageHash left = transferPackageHash right) :
    left.targetTx = right.targetTx := by
  have chunks_eq := ideal equality
  simp only [TransferPackage.canonicalize, List.cons.injEq, Chunk.encoded.injEq, Canon.dict.injEq,
    Prod.mk.injEq, true_and, and_true] at chunks_eq
  exact OffChainTx.canonicalize_injective chunks_eq.1

/-! ## Receiving what is pending -/

/-- The parameters of one turn of the loop: the id of a record that is stored, and the time. -/
structure TurnInput where
  /-- A fresh record id. -/
  recordId : String
  /-- The time of the claim. -/
  claimedAt : ℤ

variable [DecidableEq H]

namespace LocalWalletDB

/-- The context in which the node's runtime validates a package for a wallet. -/
def deliveryContext (wallet : LocalWalletDB H) (allocations : OrderedDict Address (List ValueRange))
    (package : TransferPackage H) : ValidationContext H where
  genesisAllocations := allocations
  trustedCheckpoints := wallet.trustedCheckpointsForWitness package.witnessV2

/-- One turn of the loop of `sync_incoming_transfers`. -/
def receivePending (wallet : LocalWalletDB H) (mailbox : TransferMailboxStore H)
    (context : ValidationContext H) (input : TurnInput) (packageHash : H) (row : MailboxRow H) :
    Option (V2ReceivedTransferEvent H) × LocalWalletDB H × TransferMailboxStore H :=
  match wallet.execute (wallet.receiveTransfer row.package context input.recordId) with
  | (.ok _, after) =>
      (some ⟨packageHash, row.senderAddr, wallet.address, row.package.targetTx,
        row.package.targetValue⟩, after, mailbox.markClaimed packageHash input.claimedAt)
  | (.error message, after) =>
      (none, after,
        if message = "transfer package already accepted" then
          mailbox.markClaimed packageHash input.claimedAt
        else mailbox)

/-- The loop of `sync_incoming_transfers` over the listed packages. -/
def receiveListed (wallet : LocalWalletDB H) (mailbox : TransferMailboxStore H)
    (allocations : OrderedDict Address (List ValueRange)) (inputs : ℕ → TurnInput) :
    ℕ → List (H × MailboxRow H) →
      List (V2ReceivedTransferEvent H) × LocalWalletDB H × TransferMailboxStore H
  | _, [] => ([], wallet, mailbox)
  | index, (packageHash, row) :: rest =>
      let (event, received, claimed) := wallet.receivePending mailbox
        (wallet.deliveryContext allocations row.package) (inputs index) packageHash row
      let (events, final) := received.receiveListed claimed allocations inputs (index + 1) rest
      (event.toList ++ events, final)

end LocalWalletDB

namespace V2LocalAppSession

/-- The packages that `sync_incoming_transfers` goes through, in its order. -/
def incoming (session : V2LocalAppSession H) : List (H × MailboxRow H) :=
  (TransferMailboxStore.listPendingPackages session.mailbox
    session.wallet.address).insertionSort receivedBefore

/-- `sync_incoming_transfers`, with the allocations that the node's runtime knows. -/
def syncIncomingTransfers (session : V2LocalAppSession H)
    (allocations : OrderedDict Address (List ValueRange)) (inputs : ℕ → TurnInput) :
    List (V2ReceivedTransferEvent H) × V2LocalAppSession H :=
  let (events, wallet, mailbox) :=
    session.wallet.receiveListed session.mailbox allocations inputs 0 session.incoming
  (events, { session with wallet := wallet, mailbox := mailbox })

theorem mem_incoming (session : V2LocalAppSession H) (entry : H × MailboxRow H) :
    entry ∈ session.incoming ↔ session.mailbox.get? entry.1 = some entry.2 ∧
      entry.2.recipientAddr = session.wallet.address ∧ entry.2.claimedAt = none := by
  simp only [incoming, TransferMailboxStore.listPendingPackages, List.mem_insertionSort,
    List.mem_filter, decide_eq_true_eq, OrderedDict.get?_eq_some_iff]

end V2LocalAppSession

/-! ## Refusals -/

/-- The text of a rejection. -/
def Rejection.text : Rejection → String
  | .returned error => error
  | .raised message => message

namespace V2TransferValidator

/-- The rejection is not taken for the refusal of a package that was accepted before. -/
def Distinct (rejection : Rejection) : Prop := rejection.text ≠ "transfer package already accepted"

theorem distinct_checkReceipt (unit : ConfirmedBundleUnit H) :
    RaisesOnly Distinct (checkReceipt unit) := by
  refine (raisesOnly_require (by simp [Distinct, Rejection.text])).bind fun _ => ?_
  refine (raisesOnly_demand (by simp [Distinct, Rejection.text])).bind fun _ => ?_
  exact raisesOnly_require (by simp [Distinct, Rejection.text])

theorem distinct_checkPrevRef (unit : ConfirmedBundleUnit H)
    (older : List (ConfirmedBundleUnit H)) :
    RaisesOnly Distinct (checkPrevRef unit older) := by
  cases older with
  | nil => exact raisesOnly_pure ()
  | cons next rest => exact raisesOnly_require (by simp [Distinct, Rejection.text])

theorem distinct_checkOlderUnits (targetValue : ValueRange)
    (units : List (ConfirmedBundleUnit H)) :
    RaisesOnly Distinct (checkOlderUnits targetValue units) := by
  induction units with
  | nil => exact raisesOnly_pure ()
  | cons unit older induction =>
      refine (distinct_checkReceipt unit).bind fun _ => ?_
      refine (distinct_checkPrevRef unit older).bind fun _ => ?_
      exact (raisesOnly_require (by simp [Distinct, Rejection.text])).bind fun _ => induction

theorem distinct_checkSegment (targetTx : OffChainTx) (targetValue : ValueRange) (owner : Address)
    (chain : List (ConfirmedBundleUnit H)) (expectedRecipient : Address) :
    RaisesOnly Distinct (checkSegment targetTx targetValue owner chain expectedRecipient) := by
  refine (raisesOnly_require (by simp [Distinct, Rejection.text])).bind fun _ => ?_
  refine (raisesOnly_require (by simp [Distinct, Rejection.text])).bind fun _ => ?_
  refine (raisesOnly_require (by simp [Distinct, Rejection.text])).bind fun _ => ?_
  refine (raisesOnly_demand (by simp [Distinct, Rejection.text])).bind fun _ => ?_
  refine (raisesOnly_require (by simp [Distinct, Rejection.text])).bind fun _ => ?_
  cases chain with
  | nil => exact raisesOnly_pure ()
  | cons latest older =>
      refine (distinct_checkReceipt latest).bind fun _ => ?_
      refine (distinct_checkPrevRef latest older).bind fun _ => ?_
      refine (raisesOnly_require (by simp [Distinct, Rejection.text])).bind fun _ => ?_
      exact distinct_checkOlderUnits targetValue older

theorem raisesOnly_ofInts (valueBegin valueEnd : ℤ) :
    RaisesOnly (· ≠ "transfer package already accepted")
      (ValueRange.ofInts valueBegin valueEnd) := by
  intro message raised
  rw [ValueRange.ofInts] at raised
  split at raised
  · obtain rfl := Except.error.inj raised
    simp
  · split at raised
    · obtain rfl := Except.error.inj raised
      simp
    · cases raised

omit [Crypto H] [DecidableEq H] in
theorem raisesOnly_matchesGenesisAnchor (context : ValidationContext H) (anchor : GenesisAnchor H)
    (value : ValueRange) (ownerAddr : Address) :
    RaisesOnly (· ≠ "transfer package already accepted")
      (context.matchesGenesisAnchor anchor value ownerAddr) := by
  rw [ValidationContext.matchesGenesisAnchor]
  split
  · exact raisesOnly_pure false
  · refine (raisesOnly_ofInts anchor.valueBegin anchor.valueEnd).bind fun anchorRange => ?_
    split <;> exact raisesOnly_pure _

theorem distinct_validateTransfer (context : ValidationContext H) (targetTx : OffChainTx)
    (targetValue : ValueRange) (expectedRecipient : Address) (witness : WitnessV2 H) :
    RaisesOnly Distinct
      (validateTransfer context targetTx targetValue expectedRecipient witness) := by
  induction witness generalizing targetTx expectedRecipient with
  | genesis value owner chain anchor =>
      refine (distinct_checkSegment targetTx targetValue owner chain expectedRecipient).bind
        fun _ => RaisesOnly.bind ?_ fun _ => raisesOnly_require (by simp [Distinct, Rejection.text])
      exact (raisesOnly_matchesGenesisAnchor context anchor targetValue owner).mapError
        fun _ distinct => distinct
  | checkpoint value owner chain checkpoint =>
      exact (distinct_checkSegment targetTx targetValue owner chain expectedRecipient).bind
        fun _ => raisesOnly_require (by simp [Distinct, Rejection.text])
  | prior value owner chain acquireTx priorWitness induction =>
      refine (distinct_checkSegment targetTx targetValue owner chain expectedRecipient).bind
        fun _ => (induction acquireTx owner).bind fun _ =>
          (raisesOnly_demand (by simp [Distinct, Rejection.text])).bind fun _ => ?_
      dsimp only
      cases chain.getLast? with
      | none => exact raisesOnly_pure ()
      | some earliest => exact raisesOnly_require (by simp [Distinct, Rejection.text])

end V2TransferValidator

namespace LocalWalletDB

/-- A package is refused as accepted before exactly when it was. -/
theorem receiveTransfer_refused_iff {db : LocalWalletDB H} {package : TransferPackage H}
    {context : ValidationContext H} {recordId message : String}
    (raised : db.receiveTransfer package context recordId = .error message) :
    message = "transfer package already accepted" ↔
      transferPackageHash package ∈ db.acceptedTransferPackages := by
  have checked : db.checkedRecord package context recordId = .error message := by
    rcases bind_eq_error.mp raised with checked | ⟨record, -, written⟩
    · exact checked
    · cases written
  by_cases accepted : transferPackageHash package ∈ db.acceptedTransferPackages
  · refine iff_of_true ?_ accepted
    simp only [WalletAccountV2.checkedRecord, accepted, not_true_eq_false, require,
      if_false] at checked
    exact (Except.error.inj checked).symm
  · refine iff_of_false ?_ accepted
    have validation := V2TransferValidator.distinct_validateTransfer context package.targetTx
      package.targetValue db.address package.witnessV2
    simp only [WalletAccountV2.checkedRecord, require_of accepted] at checked
    rcases bind_eq_error.mp checked with none_checked | ⟨_, -, checked⟩
    · cases none_checked
    rcases bind_eq_error.mp checked with invalid | ⟨result, validated, checked⟩
    · simp only [V2TransferValidator.validateTransferPackage, Option.getD_some] at invalid
      split at invalid
      · cases invalid
      next text rejected =>
        obtain rfl := Except.error.inj invalid
        exact validation _ rejected
      · cases invalid
    · -- A returned error becomes the message; an accepted witness leaves one check.
      simp only [V2TransferValidator.validateTransferPackage, Option.getD_some] at validated
      split at validated
      next text rejected =>
        obtain rfl := Except.ok.inj validated
        obtain rfl : text = message := by simpa [demand, bind, Except.bind] using checked
        exact validation _ rejected
      · cases validated
      · obtain rfl := Except.ok.inj validated
        rcases bind_eq_error.mp checked with missing | ⟨_, -, checked⟩
        · cases missing
        rcases bind_eq_error.mp checked with empty | ⟨_, -, checked⟩
        · have tuple : RaisesOnly (· ≠ "transfer package already accepted")
              (demand package.witnessV2.confirmedBundleChain.head? "tuple index out of range") :=
            raisesOnly_demand (by simp)
          exact tuple message empty
        · cases checked

end LocalWalletDB

/-! ## What a wallet has accepted -/

/-- The transactions that a step commits. -/
def WalletStep.reach (step : WalletStep H) (transactions : List (Transaction H)) :
    List (Transaction H) :=
  match step with
  | .completes _ => transactions
  | .stops _ count => transactions.take count

/-- The transaction marks a package as accepted. -/
def Transaction.Marks : Transaction H → Prop
  | .saveAcceptedTransferPackage _ => True
  | _ => False

/-- The step goes beyond a number of transactions. -/
def WalletStep.GoesBeyond (step : WalletStep H) (count : ℕ) : Prop :=
  match step with
  | .completes _ => True
  | .stops _ reached => count < reached

instance (step : WalletStep H) (count : ℕ) : Decidable (step.GoesBeyond count) :=
  match step with
  | .completes _ => isTrue trivial
  | .stops _ reached => inferInstanceAs (Decidable (count < reached))

namespace LocalWalletDB

variable {db : LocalWalletDB H}

/-- The hash of the package whose record a call stores. -/
def storedBy (db : LocalWalletDB H) : WalletCall H → Option H
  | .receiveTransfer package context recordId =>
      match db.receiveTransfer package context recordId with
      | .error _ => none
      | .ok _ =>
          if recordId ∈ db.records.map LocalValueRecord.recordId then none
          else some (transferPackageHash package)
  | _ => none

/-- The package that a step credits: its record is stored. -/
def credits (db : LocalWalletDB H) (step : WalletStep H) : Option H :=
  if step.GoesBeyond step.call.copies then db.storedBy step.call else none

/-- The package that a step marks as accepted, which is done after the record is stored. -/
def accepts (db : LocalWalletDB H) (step : WalletStep H) : Option H :=
  if step.GoesBeyond (step.call.copies + 1) then db.storedBy step.call else none

theorem storedBy_eq_some {call : WalletCall H} {packageHash : H} :
    db.storedBy call = some packageHash ↔ ∃ package context recordId newest,
      call = .receiveTransfer package context recordId ∧
        transferPackageHash package = packageHash ∧
        db.Stores package context recordId newest := by
  cases call with
  | receiveTransfer package context recordId =>
      simp only [storedBy]
      constructor
      · intro stored
        split at stored
        · cases stored
        next planned planned_eq =>
          split at stored
          · cases stored
          next fresh =>
            obtain ⟨record, transactions⟩ := planned
            obtain ⟨newest, checked, -⟩ := receiveTransfer_eq_ok.mp planned_eq
            exact ⟨package, context, recordId, newest, rfl, Option.some.inj stored, checked, fresh⟩
      · rintro ⟨_, _, _, newest, call_eq, rfl, stores⟩
        cases call_eq
        rw [receiveTransfer_eq_ok.mpr ⟨newest, stores.toPackageChecked, rfl, rfl⟩]
        exact if_neg stores.fresh
  | _ => simp [storedBy]

theorem advance_of_ok {step : WalletStep H} {transactions : List (Transaction H)}
    (planned : db.plan step.call = .ok ((), transactions)) :
    db.advance step = (db.commitAll (step.reach transactions)).2 := by
  cases step with
  | completes call => exact perform_of_ok planned
  | stops call count => exact stop_of_ok planned count

theorem advance_of_error {step : WalletStep H} {message : String}
    (raised : db.plan step.call = .error message) : db.advance step = db := by
  cases step with
  | completes call => exact perform_of_error raised
  | stops call count => exact stop_of_error raised count

/-- Transactions that mark no package keep the accepted ones. -/
theorem acceptedTransferPackages_commitAll {transactions : List (Transaction H)}
    (unmarked : ∀ transaction ∈ transactions, ¬ transaction.Marks) :
    (db.commitAll transactions).2.acceptedTransferPackages = db.acceptedTransferPackages := by
  induction transactions generalizing db with
  | nil => rfl
  | cons transaction rest induction =>
      obtain ⟨first, others⟩ := List.forall_mem_cons.mp unmarked
      cases committed : db.commit transaction with
      | error message =>
          rw [commitAll_cons_error committed]
      | ok next =>
          rw [commitAll_cons committed, induction others]
          cases transaction with
          | saveAcceptedTransferPackage packageHash => exact absurd trivial first
          | replaceValueRecords records =>
              simp only [commit] at committed
              split at committed
              · obtain rfl := Except.ok.inj committed
                rfl
              · cases committed
          | savePendingBundle context =>
              simp only [commit, bind_eq_ok, require_eq_ok, pure_eq_ok] at committed
              obtain ⟨_, _, rfl⟩ := committed
              rfl
          | saveReceipt receipt bundleHash =>
              simp only [commit, bind_eq_ok, require_eq_ok, pure_eq_ok] at committed
              obtain ⟨_, _, rfl⟩ := committed
              rfl
          | _ =>
              obtain rfl := Except.ok.inj committed
              rfl

omit [Crypto H] [DecidableEq H] in
theorem mem_reach {step : WalletStep H} {transactions : List (Transaction H)}
    {transaction : Transaction H} (reached : transaction ∈ step.reach transactions) :
    transaction ∈ transactions := by
  cases step with
  | completes call => exact reached
  | stops call count => exact List.mem_of_mem_take reached

omit [Crypto H] [DecidableEq H] in
theorem plan_eq_ok {α : Type} {plan : Except String (Planned H α)}
    {transactions : List (Transaction H)} (planned : forget plan = .ok ((), transactions)) :
    ∃ result, plan = .ok (result, transactions) := by
  cases plan with
  | error message => cases planned
  | ok result =>
      obtain ⟨value, others⟩ := result
      simp only [forget, Except.map, Except.ok.injEq, Prod.mk.injEq, true_and] at planned
      exact ⟨value, by rw [planned]⟩

/-- Only received packages are marked as accepted. -/
theorem not_marks_of_plan {call : WalletCall H} {transactions : List (Transaction H)}
    (planned : db.plan call = .ok ((), transactions))
    (other : ∀ package context recordId, call ≠ .receiveTransfer package context recordId) :
    ∀ transaction ∈ transactions, ¬ transaction.Marks := by
  cases call with
  | receiveTransfer package context recordId => exact absurd rfl (other package context recordId)
  | addGenesisValue value recordId =>
      obtain ⟨_, eq⟩ := plan_eq_ok planned
      obtain ⟨-, rfl⟩ := Prod.mk.inj (Except.ok.inj eq)
      simp [Transaction.Marks]
  | buildBundle call =>
      obtain ⟨⟨submission, context⟩, eq⟩ := plan_eq_ok planned
      obtain ⟨_, _, _, rfl⟩ := buildBundle_built eq
      simp [Transaction.Marks]
  | onReceiptConfirmed receipt =>
      obtain ⟨unit, eq⟩ := plan_eq_ok planned
      obtain ⟨_, _, _, rfl⟩ := onReceiptConfirmed_eq_ok.mp eq
      simp [receiptTransactions, Transaction.Marks]
  | markReceiptMissing seq =>
      obtain ⟨_, eq⟩ := plan_eq_ok planned
      obtain ⟨_, rfl⟩ := markReceiptMissing_eq_ok.mp eq
      simp [Transaction.Marks]
  | rollbackPendingBundle seq =>
      obtain ⟨_, eq⟩ := plan_eq_ok planned
      obtain ⟨_, rfl⟩ := rollbackPendingBundle_eq_ok.mp eq
      simp [Transaction.Marks]
  | observeCanonicalHeader header =>
      simp only [plan, observeCanonicalHeader, Except.ok.injEq, Prod.mk.injEq, true_and] at planned
      subst planned
      simp [Transaction.Marks]

section Receive

variable {package : TransferPackage H} {record : LocalValueRecord H} {step : WalletStep H}

theorem commitAll_reach_copies (early : ¬ step.GoesBeyond package.witnessV2.sidecars.length) :
    ∃ sidecars, (db.commitAll (step.reach (db.receiveTransactions package record))).2 =
      db.withSidecars sidecars := by
  cases step with
  | completes call => exact absurd trivial early
  | stops call count =>
      have within : count ≤
          (package.witnessV2.sidecars.map (Transaction.saveSidecar (H := H))).length := by
        rw [List.length_map]
        exact not_lt.mp early
      refine ⟨package.witnessV2.sidecars.take count, ?_⟩
      rw [WalletStep.reach, receiveTransactions, List.take_append_of_le_length within,
        ← List.map_take, commitAll_saveSidecars_nil]

/-- A step that is stopped between the record and the mark has stored the record. -/
theorem commitAll_reach_record
    (fresh : record.recordId ∉ db.records.map LocalValueRecord.recordId)
    (stored : step.GoesBeyond package.witnessV2.sidecars.length)
    (unmarked : ¬ step.GoesBeyond (package.witnessV2.sidecars.length + 1)) :
    (db.commitAll (step.reach (db.receiveTransactions package record))).2 =
      LocalWalletDB.withRecord (db.withSidecars package.witnessV2.sidecars) record fresh := by
  cases step with
  | completes call => exact absurd trivial unmarked
  | stops call count =>
      have count_eq : count = package.witnessV2.sidecars.length + 1 :=
        le_antisymm (not_lt.mp unmarked) stored
      let saved := db.withSidecars package.witnessV2.sidecars
      have committed : saved.commit (.replaceValueRecords (db.records ++ [record])) =
          .ok (saved.withRecord record fresh) := commit_replaceValueRecords _
      have taken : (db.receiveTransactions package record).take count =
          package.witnessV2.sidecars.map Transaction.saveSidecar ++
            [.replaceValueRecords (db.records ++ [record])] := by
        rw [receiveTransactions, count_eq, ← List.length_map (f := Transaction.saveSidecar),
          List.take_length_add_append]
        rfl
      rw [WalletStep.reach, taken, commitAll_saveSidecars, commitAll_cons committed]
      rfl

theorem commitAll_reach_mark
    (new : transferPackageHash package ∉ db.acceptedTransferPackages)
    (fresh : record.recordId ∉ db.records.map LocalValueRecord.recordId)
    (marked : step.GoesBeyond (package.witnessV2.sidecars.length + 1)) :
    (db.commitAll (step.reach (db.receiveTransactions package record))).2 =
      db.afterReceiving package record fresh := by
  have whole : step.reach (db.receiveTransactions package record) =
      db.receiveTransactions package record := by
    cases step with
    | completes call => rfl
    | stops call count =>
        have beyond : package.witnessV2.sidecars.length + 1 < count := marked
        apply List.take_of_length_le
        simp only [receiveTransactions, List.length_append, List.length_map, List.length_cons,
          List.length_nil]
        omega
  rw [whole, commitAll_receive new fresh]

/-- Under a taken record id nothing but copies is stored. -/
theorem commitAll_reach_taken
    (taken : record.recordId ∈ db.records.map LocalValueRecord.recordId) :
    ∃ sidecars, (db.commitAll (step.reach (db.receiveTransactions package record))).2 =
      db.withSidecars sidecars := by
  by_cases stored : step.GoesBeyond package.witnessV2.sidecars.length
  · have failed : (db.withSidecars package.witnessV2.sidecars).commit
        (.replaceValueRecords (db.records ++ [record])) =
          .error "UNIQUE constraint failed: value_records.record_id" :=
      commit_withRecord_of_taken taken
    have reached : ∃ rest, step.reach (db.receiveTransactions package record) =
        package.witnessV2.sidecars.map Transaction.saveSidecar ++
          .replaceValueRecords (db.records ++ [record]) :: rest := by
      cases step with
      | completes call => exact ⟨_, rfl⟩
      | stops call count =>
          obtain ⟨more, rfl⟩ := Nat.exists_eq_add_of_lt stored
          refine ⟨[.saveAcceptedTransferPackage (transferPackageHash package)].take more, ?_⟩
          rw [WalletStep.reach, receiveTransactions, add_assoc,
            ← List.length_map (f := Transaction.saveSidecar), List.take_length_add_append]
          rfl
    obtain ⟨rest, reach_eq⟩ := reached
    refine ⟨package.witnessV2.sidecars, ?_⟩
    rw [reach_eq, commitAll_saveSidecars, commitAll_cons_error failed]
  · exact commitAll_reach_copies stored

/-- What a step of receiving a package does: nothing but copies, the record without the mark, or
both. -/
theorem advance_receive {context : ValidationContext H} {recordId : String}
    (call_eq : step.call = .receiveTransfer package context recordId) :
    (db.credits step = none ∧ db.accepts step = none ∧
      ∃ sidecars, db.advance step = db.withSidecars sidecars) ∨
    ∃ newest, ∃ stores : db.Stores package context recordId newest,
      db.credits step = some (transferPackageHash package) ∧
        (db.accepts step = none ∧
          db.advance step = LocalWalletDB.withRecord (db.withSidecars package.witnessV2.sidecars)
            (db.receivedRecord package recordId newest) stores.fresh ∨
        db.accepts step = some (transferPackageHash package) ∧
          db.advance step = db.afterReceiving package (db.receivedRecord package recordId newest)
            stores.fresh) := by
  have copies : step.call.copies = package.witnessV2.sidecars.length := by
    rw [call_eq]
    rfl
  have unstored : db.storedBy step.call = none →
      db.credits step = none ∧ db.accepts step = none := by
    intro nothing
    simp only [credits, accepts, nothing, ite_self, and_self]
  cases planned : db.receiveTransfer package context recordId with
  | error message =>
      have raised : db.plan step.call = .error message := by
        rw [call_eq, plan, planned]
        rfl
      obtain ⟨uncredited, unaccepted⟩ := unstored (by rw [call_eq, storedBy, planned])
      exact .inl ⟨uncredited, unaccepted, [], advance_of_error raised⟩
  | ok result =>
      obtain ⟨record, transactions⟩ := result
      obtain ⟨newest, checked, rfl, rfl⟩ := receiveTransfer_eq_ok.mp planned
      have ready : db.plan step.call = .ok ((), db.receiveTransactions package
          (db.receivedRecord package recordId newest)) := by
        rw [call_eq, plan, planned]
        rfl
      have advance_eq := advance_of_ok ready
      by_cases taken : recordId ∈ db.records.map LocalValueRecord.recordId
      · obtain ⟨uncredited, unaccepted⟩ := unstored (by
          rw [call_eq, storedBy, planned]
          exact if_pos taken)
        rw [advance_eq]
        exact .inl ⟨uncredited, unaccepted, commitAll_reach_taken taken⟩
      · have stores : db.Stores package context recordId newest := ⟨checked, taken⟩
        have stored : db.storedBy step.call = some (transferPackageHash package) :=
          storedBy_eq_some.mpr ⟨package, context, recordId, newest, call_eq, rfl, stores⟩
        simp only [credits, accepts, stored, copies, advance_eq]
        by_cases beyond : step.GoesBeyond package.witnessV2.sidecars.length
        · refine .inr ⟨newest, stores, if_pos beyond, ?_⟩
          by_cases marked : step.GoesBeyond (package.witnessV2.sidecars.length + 1)
          · exact .inr ⟨if_pos marked, commitAll_reach_mark checked.new stores.fresh marked⟩
          · exact .inl ⟨if_neg marked, commitAll_reach_record stores.fresh beyond marked⟩
        · have unmarked : ¬ step.GoesBeyond (package.witnessV2.sidecars.length + 1) := by
            cases step with
            | completes call => exact beyond
            | stops call count => exact fun later => beyond (Nat.lt_of_succ_lt later)
          exact .inl ⟨if_neg beyond, if_neg unmarked, commitAll_reach_copies beyond⟩

end Receive

theorem credits_of_other {step : WalletStep H}
    (other : ∀ package context recordId, step.call ≠ .receiveTransfer package context recordId) :
    db.credits step = none ∧ db.accepts step = none := by
  have unstored : db.storedBy step.call = none := by
    refine Option.eq_none_iff_forall_not_mem.mpr fun packageHash stored => ?_
    obtain ⟨package, context, recordId, _, call_eq, -⟩ := storedBy_eq_some.mp stored
    exact other package context recordId call_eq
  simp only [credits, accepts, unstored, ite_self, and_self]

theorem acceptedTransferPackages_advance (db : LocalWalletDB H) (step : WalletStep H) :
    (db.advance step).acceptedTransferPackages =
      (db.accepts step).toList ++ db.acceptedTransferPackages := by
  by_cases receives : ∃ package context recordId,
      step.call = .receiveTransfer package context recordId
  · obtain ⟨package, context, recordId, call_eq⟩ := receives
    rcases db.advance_receive call_eq with ⟨-, accepts, sidecars, after⟩ |
      ⟨_, _, -, ⟨accepts, after⟩ | ⟨accepts, after⟩⟩ <;> rw [accepts, after] <;> rfl
  · push Not at receives
    rw [(credits_of_other receives).2]
    cases planned : db.plan step.call with
    | error message => rw [advance_of_error planned]; rfl
    | ok result =>
        have unmarked := not_marks_of_plan planned receives
        rw [advance_of_ok planned]
        exact acceptedTransferPackages_commitAll fun transaction reached =>
          unmarked transaction (mem_reach reached)

theorem mem_accepted_receive {package : TransferPackage H} {context : ValidationContext H}
    {recordId : String} {packageHash : H} (other : packageHash ≠ transferPackageHash package) :
    packageHash ∈ (db.advance (.completes
        (.receiveTransfer package context recordId))).acceptedTransferPackages ↔
      packageHash ∈ db.acceptedTransferPackages := by
  let receives : WalletStep H := .completes (.receiveTransfer package context recordId)
  have call_eq : receives.call = .receiveTransfer package context recordId := rfl
  rw [acceptedTransferPackages_advance]
  rcases db.advance_receive call_eq with
    ⟨-, accepts, -⟩ | ⟨_, _, -, ⟨accepts, -⟩ | ⟨accepts, -⟩⟩ <;> simp [receives, accepts, other]

theorem credits_spec (db : LocalWalletDB H) (step : WalletStep H) :
    (db.credits step = none ∧ db.accepts step = none) ∨
    ∃ packageHash, packageHash ∉ db.acceptedTransferPackages ∧
      db.credits step = some packageHash ∧
        (db.accepts step = none ∨ db.accepts step = some packageHash) := by
  have earlier : step.GoesBeyond (step.call.copies + 1) → step.GoesBeyond step.call.copies := by
    cases step with
    | completes call => exact id
    | stops call count => exact Nat.lt_of_succ_lt
  cases stored : db.storedBy step.call with
  | none => exact .inl (by simp [credits, accepts, stored])
  | some packageHash =>
      obtain ⟨_, _, _, _, -, rfl, stores⟩ := storedBy_eq_some.mp stored
      by_cases credited : step.GoesBeyond step.call.copies
      · refine .inr ⟨_, stores.new, by rw [credits, if_pos credited, stored], ?_⟩
        by_cases accepted : step.GoesBeyond (step.call.copies + 1)
        · exact .inr (by rw [LocalWalletDB.accepts, if_pos accepted, stored])
        · exact .inl (if_neg accepted)
      · exact .inl ⟨if_neg credited, if_neg (mt earlier credited)⟩

/-- Receiving a package either returns and stores its record, or raises, with the text of a refusal
exactly when the package is among the accepted ones. -/
theorem execute_receiveTransfer (wallet : LocalWalletDB H) (package : TransferPackage H)
    (context : ValidationContext H) (recordId : String) :
    let result := wallet.execute (wallet.receiveTransfer package context recordId)
    let stored := wallet.storedBy (.receiveTransfer package context recordId)
    (∃ record, result.1 = .ok record ∧ stored = some (transferPackageHash package)) ∨
    ∃ message, result.1 = .error message ∧ stored = none ∧
      (message = "transfer package already accepted" ↔
        transferPackageHash package ∈ wallet.acceptedTransferPackages) := by
  cases planned : wallet.receiveTransfer package context recordId with
  | error message =>
      refine .inr ⟨message, rfl, ?_, receiveTransfer_refused_iff planned⟩
      simp only [storedBy, planned]
  | ok result =>
      obtain ⟨record, transactions⟩ := result
      obtain ⟨newest, checked, rfl, rfl⟩ := receiveTransfer_eq_ok.mp planned
      by_cases taken : recordId ∈ wallet.records.map LocalValueRecord.recordId
      · have failed : (wallet.withSidecars package.witnessV2.sidecars).commit
            (.replaceValueRecords (wallet.records ++
              [wallet.receivedRecord package recordId newest])) =
                .error "UNIQUE constraint failed: value_records.record_id" :=
          commit_withRecord_of_taken taken
        simp only [execute, receiveTransactions, commitAll_saveSidecars,
          commitAll_cons_error failed, storedBy, planned, if_pos taken]
        exact .inr ⟨_, rfl, trivial, iff_of_false (by simp) checked.new⟩
      · have committed : wallet.commitAll (wallet.receiveTransactions package
            (wallet.receivedRecord package recordId newest)) =
              (.ok (), wallet.afterReceiving package
                (wallet.receivedRecord package recordId newest) taken) :=
          commitAll_receive checked.new taken
        simp only [execute, committed, storedBy, planned, if_neg taken]
        exact .inl ⟨_, rfl, trivial⟩

/-- One turn receives a package, reports it when the wallet accepts it, and claims it when it is
accepted afterwards, whether now or before. -/
theorem receivePending_spec (wallet : LocalWalletDB H) (mailbox : TransferMailboxStore H)
    (context : ValidationContext H) (input : TurnInput) (row : MailboxRow H) :
    let receives : WalletStep H :=
      .completes (.receiveTransfer row.package context input.recordId)
    let packageHash := transferPackageHash row.package
    let turn := wallet.receivePending mailbox context input packageHash row
    turn.1.map V2ReceivedTransferEvent.packageHash = wallet.accepts receives ∧
      turn.2 = (wallet.advance receives,
        if packageHash ∈ (wallet.advance receives).acceptedTransferPackages then
          mailbox.markClaimed packageHash input.claimedAt else mailbox) := by
  intro receives packageHash turn
  have performed : (wallet.execute
      (wallet.receiveTransfer row.package context input.recordId)).2 = wallet.advance receives :=
    (execute_forget_snd _).symm
  have accepts_eq : wallet.accepts receives = wallet.storedBy receives.call := if_pos trivial
  have accepted_eq := wallet.acceptedTransferPackages_advance receives
  have cases := wallet.execute_receiveTransfer row.package context input.recordId
  simp only [turn, receivePending]
  rcases executed : wallet.execute (wallet.receiveTransfer row.package context input.recordId) with
    ⟨outcome, final⟩
  rw [executed] at cases performed
  obtain rfl : final = wallet.advance receives := performed
  rcases cases with ⟨record, rfl, stored⟩ | ⟨message, rfl, unstored, refused_iff⟩
  · have accepts : wallet.accepts receives = some packageHash := accepts_eq.trans stored
    refine ⟨accepts.symm, ?_⟩
    rw [if_pos]
    rw [accepted_eq, accepts]
    exact List.mem_cons_self
  · have accepts : wallet.accepts receives = none := accepts_eq.trans unstored
    refine ⟨accepts.symm, ?_⟩
    rw [accepted_eq, accepts]
    by_cases refused : message = "transfer package already accepted"
    · simp only [if_pos refused]
      rw [if_pos]
      exact refused_iff.mp refused
    · simp only [if_neg refused]
      rw [if_neg]
      exact mt refused_iff.mpr refused

end LocalWalletDB

/-! ## Wallets around a mailbox -/

/-- The wallets that share a mailbox.  For the statements the state also remembers who was credited
with which package, and which of these credits were not marked before the process stopped. -/
structure MailboxSystem (H : Type) where
  /-- The wallet of each session. -/
  wallets : Address → LocalWalletDB H
  /-- The mailbox that sessions share. -/
  mailbox : TransferMailboxStore H
  /-- History: the packages that were stored as records. -/
  credited : List (Address × H)
  /-- History: the packages whose receipt stopped before they were marked as accepted. -/
  unmarked : List (Address × H)

/-- How far the turn of a pending package gets. -/
inductive TurnEnd where
  | completes
  /-- The process stops before the package is claimed. -/
  | unclaimed
  /-- The process stops after some of the transactions of receiving it. -/
  | inside (count : ℕ)

/-- One event at the wallets or the mailbox; a turn is about a row that was listed before. -/
inductive MailboxEvent (H : Type) where
  | queue (senderAddr : Address) (package : TransferPackage H) (createdAt : ℤ)
  | wallet (address : Address) (step : WalletStep H)
  | turn (address : Address) (row : MailboxRow H) (context : ValidationContext H)
      (input : TurnInput) (finish : TurnEnd)

namespace MailboxSystem

/-- A wallet makes a step. -/
def move (sys : MailboxSystem H) (address : Address) (step : WalletStep H) : MailboxSystem H where
  wallets := Function.update sys.wallets address ((sys.wallets address).advance step)
  mailbox := sys.mailbox
  credited := sys.credited ++ ((sys.wallets address).credits step).toList.map (Prod.mk address)
  unmarked := sys.unmarked ++
    (if ((sys.wallets address).accepts step).isSome then []
      else ((sys.wallets address).credits step).toList.map (Prod.mk address))

def step (sys : MailboxSystem H) : MailboxEvent H → MailboxSystem H
  | .queue senderAddr package createdAt =>
      { sys with
        mailbox := sys.mailbox.enqueuePackage senderAddr package.targetTx.recipientAddr package
          createdAt }
  | .wallet address step => sys.move address step
  | .turn address row context input .completes =>
      let received := (sys.wallets address).receivePending sys.mailbox context input
        (transferPackageHash row.package) row
      { sys.move address (.completes (.receiveTransfer row.package context input.recordId)) with
        mailbox := received.2.2 }
  | .turn address row context input .unclaimed =>
      sys.move address (.completes (.receiveTransfer row.package context input.recordId))
  | .turn address row context input (.inside count) =>
      sys.move address (.stops (.receiveTransfer row.package context input.recordId) count)

/-- New wallets around an empty mailbox. -/
def initial (genesisBlockHash : H) : MailboxSystem H where
  wallets address := .new address genesisBlockHash
  mailbox := ∅
  credited := []
  unmarked := []

/-- A turn is about a package that waits for the wallet in the mailbox. -/
def Addressed (sys : MailboxSystem H) : MailboxEvent H → Prop
  | .turn address row _ _ _ =>
      ∃ stored ∈ sys.mailbox.get? (transferPackageHash row.package), stored.recipientAddr = address
  | _ => True

/-- What holds of the wallets and the mailbox in every run. -/
structure Sound (sys : MailboxSystem H) : Prop where
  /-- The rows are filed under the hashes of their packages, and addressed to their recipients. -/
  filed : ∀ packageHash row, sys.mailbox.get? packageHash = some row →
    transferPackageHash row.package = packageHash ∧
      row.recipientAddr = row.package.targetTx.recipientAddr
  /-- Whatever is claimed was accepted by its recipient. -/
  claimed : ∀ packageHash row, sys.mailbox.get? packageHash = some row → row.claimedAt ≠ none →
    packageHash ∈ (sys.wallets row.recipientAddr).acceptedTransferPackages
  /-- A wallet is credited with a package once when it accepts it, and otherwise only when the
  process stops between the record and the mark. -/
  counted : ∀ address packageHash, sys.credited.count (address, packageHash) =
    sys.unmarked.count (address, packageHash) +
      if packageHash ∈ (sys.wallets address).acceptedTransferPackages then 1 else 0
  /-- No wallet accepts a package twice. -/
  once : ∀ address, (sys.wallets address).acceptedTransferPackages.Nodup

theorem sound_initial (genesisBlockHash : H) : (initial genesisBlockHash).Sound where
  filed := nofun
  claimed := nofun
  counted _ _ := rfl
  once _ := List.nodup_nil

variable {sys : MailboxSystem H}

/-- A step of a wallet credits each package once more at most, and one that it accepts was not
accepted before. -/
theorem Sound.move (sound : sys.Sound) (address : Address) (step : WalletStep H) :
    (sys.move address step).Sound where
  filed := sound.filed
  claimed packageHash row stored isClaimed := by
    have before := sound.claimed packageHash row stored isClaimed
    by_cases own : row.recipientAddr = address
    · subst own
      simp only [MailboxSystem.move, Function.update_self,
        LocalWalletDB.acceptedTransferPackages_advance]
      exact List.mem_append_right _ before
    · simpa only [MailboxSystem.move, Function.update_of_ne own] using before
  counted other packageHash := by
    have before := sound.counted other packageHash
    by_cases own : other = address
    · subst own
      simp only [MailboxSystem.move, Function.update_self, List.count_append, before,
        LocalWalletDB.acceptedTransferPackages_advance]
      rcases (sys.wallets other).credits_spec step with ⟨uncredited, unaccepted⟩ |
        ⟨received, new, credited, unaccepted | accepted⟩
      · simp [uncredited, unaccepted]
      · simp only [credited, unaccepted, Option.toList_some, Option.toList_none, List.map_cons,
          List.map_nil, Option.isSome_none, Bool.false_eq_true, if_false, List.nil_append]
        omega
      · by_cases same : packageHash = received
        · subst same
          simp [credited, accepted, new]
        · simp [credited, accepted, same, Ne.symm same]
    · have apart : ∀ packages : List H,
          (packages.map (Prod.mk address)).count (other, packageHash) = 0 := by
        intro packages
        refine List.count_eq_zero.mpr fun member => ?_
        obtain ⟨_, -, pair_eq⟩ := List.mem_map.mp member
        exact own (Prod.mk.inj pair_eq).1.symm
      have none_unmarked : (if ((sys.wallets address).accepts step).isSome then []
          else ((sys.wallets address).credits step).toList.map (Prod.mk address)).count
            (other, packageHash) = 0 := by
        split
        · rfl
        · exact apart _
      simp only [MailboxSystem.move, Function.update_of_ne own, List.count_append, apart,
        none_unmarked, add_zero, before]
  once other := by
    have before := sound.once other
    by_cases own : other = address
    · subst own
      simp only [MailboxSystem.move, Function.update_self,
        LocalWalletDB.acceptedTransferPackages_advance]
      rcases (sys.wallets other).credits_spec step with ⟨-, unaccepted⟩ |
        ⟨_, new, -, unaccepted | accepted⟩
      · exact unaccepted ▸ before
      · exact unaccepted ▸ before
      · exact accepted ▸ before.cons new
    · simpa only [MailboxSystem.move, Function.update_of_ne own] using before

/-- Claiming a package that its recipient has accepted. -/
theorem Sound.markClaimed (sound : sys.Sound) {packageHash : H} (claimedAt : ℤ)
    (accepted : ∀ row, sys.mailbox.get? packageHash = some row →
      packageHash ∈ (sys.wallets row.recipientAddr).acceptedTransferPackages) :
    ({ sys with mailbox := sys.mailbox.markClaimed packageHash claimedAt } : MailboxSystem H).Sound
    where
  filed other row stored := by
    obtain ⟨original, stored_before, package_eq, recipient_eq, -⟩ :=
      TransferMailboxStore.get?_markClaimed_eq_some stored
    rw [package_eq, recipient_eq]
    exact sound.filed other original stored_before
  claimed other row stored isClaimed := by
    obtain ⟨original, stored_before, -, recipient_eq, claimed_eq⟩ :=
      TransferMailboxStore.get?_markClaimed_eq_some stored
    by_cases same : packageHash = other
    · subst same
      exact recipient_eq ▸ accepted original stored_before
    · rw [if_neg same] at claimed_eq
      exact recipient_eq ▸ sound.claimed other original stored_before (claimed_eq ▸ isClaimed)
  counted := sound.counted
  once := sound.once

/-- Queueing a package again keeps its recipient. -/
theorem Sound.enqueuePackage (ideal : IdealHash H) (sound : sys.Sound) (senderAddr : Address)
    (package : TransferPackage H) (createdAt : ℤ) :
    (sys.step (.queue senderAddr package createdAt)).Sound where
  filed packageHash row stored := by
    rcases TransferMailboxStore.get?_enqueuePackage_eq_some stored with
      ⟨hash_eq, package_eq, recipient_eq, -⟩ | stored_before
    · exact ⟨by rw [package_eq, hash_eq], by rw [recipient_eq, package_eq]⟩
    · exact sound.filed packageHash row stored_before
  claimed packageHash row stored isClaimed := by
    rcases TransferMailboxStore.get?_enqueuePackage_eq_some stored with
      ⟨rfl, -, recipient_eq, unclaimed | ⟨existing, existing_eq, claimed_eq⟩⟩ | stored_before
    · exact absurd unclaimed isClaimed
    · obtain ⟨hash_eq, existing_recipient⟩ := sound.filed _ existing existing_eq
      have accepted := sound.claimed _ existing existing_eq (claimed_eq ▸ isClaimed)
      rwa [existing_recipient, targetTx_eq_of_hash_eq ideal hash_eq, ← recipient_eq] at accepted
    · exact sound.claimed packageHash row stored_before isClaimed
  counted := sound.counted
  once := sound.once

/-- Every event keeps the wallets and the mailbox sound. -/
theorem Sound.step (ideal : IdealHash H) (sound : sys.Sound) {event : MailboxEvent H}
    (addressed : sys.Addressed event) : (sys.step event).Sound := by
  cases event with
  | queue senderAddr package createdAt =>
      exact sound.enqueuePackage ideal senderAddr package createdAt
  | wallet address step => exact sound.move address step
  | turn address row context input finish =>
      cases finish with
      | inside count => exact sound.move address _
      | unclaimed => exact sound.move address _
      | completes =>
          let receives : WalletStep H :=
            .completes (.receiveTransfer row.package context input.recordId)
          have moved := sound.move address receives
          obtain ⟨-, turn⟩ :=
            (sys.wallets address).receivePending_spec sys.mailbox context input row
          simp only [MailboxSystem.step, turn]
          split
          next accepted =>
            refine moved.markClaimed input.claimedAt fun stored stored_eq => ?_
            obtain ⟨waiting, waiting_eq, recipient_eq⟩ := addressed
            obtain rfl := Option.some.inj (stored_eq.symm.trans waiting_eq)
            rw [recipient_eq]
            simpa only [MailboxSystem.move, Function.update_self] using accepted
          · exact moved

/-! ## A completed synchronisation -/

/-- The completed turns of listed packages. -/
def Turns (address : Address) : List (H × MailboxRow H) → List (MailboxEvent H) → Prop :=
  List.Forall₂ fun entry event => ∃ context input,
    event = .turn address entry.2 context input .completes

/-- The loop over the listed packages is a run of completed turns, and reports what the wallet
accepts. -/
theorem receiveListed_run (sys : MailboxSystem H) (address : Address)
    (allocations : OrderedDict Address (List ValueRange)) (inputs : ℕ → TurnInput) (index : ℕ)
    {listed : List (H × MailboxRow H)}
    (filed : ∀ entry ∈ listed, transferPackageHash entry.2.package = entry.1) :
    let received := (sys.wallets address).receiveListed sys.mailbox allocations inputs index listed
    received.2.1.acceptedTransferPackages =
        (received.1.map V2ReceivedTransferEvent.packageHash).reverse ++
          (sys.wallets address).acceptedTransferPackages ∧
      ∃ turns, Turns address listed turns ∧
        (turns.foldl step sys).wallets = Function.update sys.wallets address received.2.1 ∧
        (turns.foldl step sys).mailbox = received.2.2 := by
  induction listed generalizing sys index with
  | nil => exact ⟨rfl, [], .nil, (Function.update_eq_self address sys.wallets).symm, rfl⟩
  | cons entry rest induction =>
      obtain ⟨packageHash, row⟩ := entry
      obtain ⟨filed_first, filed_rest⟩ := List.forall_mem_cons.mp filed
      obtain rfl : transferPackageHash row.package = packageHash := filed_first
      let context := (sys.wallets address).deliveryContext allocations row.package
      let turn : MailboxEvent H := .turn address row context (inputs index) .completes
      obtain ⟨reported, turned⟩ :=
        (sys.wallets address).receivePending_spec sys.mailbox context (inputs index) row
      have wallets_eq : (sys.step turn).wallets = Function.update sys.wallets address
          ((sys.wallets address).advance
            (.completes (.receiveTransfer row.package context (inputs index).recordId))) := rfl
      have mailbox_eq : (sys.step turn).mailbox = ((sys.wallets address).receivePending sys.mailbox
          context (inputs index) (transferPackageHash row.package) row).2.2 := rfl
      obtain ⟨accepted_eq, turns, are_turns, wallets_after, mailbox_after⟩ :=
        induction (sys.step turn) (index + 1) filed_rest
      rw [wallets_eq, Function.update_self] at accepted_eq wallets_after mailbox_after
      rw [mailbox_eq] at accepted_eq wallets_after mailbox_after
      simp only [LocalWalletDB.receiveListed]
      rcases pending : (sys.wallets address).receivePending sys.mailbox context (inputs index)
        (transferPackageHash row.package) row with ⟨event, after, claimed⟩
      rw [pending] at reported turned accepted_eq wallets_after mailbox_after
      obtain ⟨rfl, -⟩ := Prod.mk.inj turned
      refine ⟨?_, turn :: turns, .cons ⟨context, inputs index, rfl⟩ are_turns, ?_, mailbox_after⟩
      · rw [accepted_eq, LocalWalletDB.acceptedTransferPackages_advance, ← reported]
        cases event <;> simp
      · rw [List.foldl_cons, wallets_after, Function.update_idem]

/-- The rows of a wallet with this hash are claimed if and only if their package was accepted. -/
def Settled (sys : MailboxSystem H) (address : Address) (packageHash : H) : Prop :=
  ∀ row, sys.mailbox.get? packageHash = some row → row.recipientAddr = address →
    (row.claimedAt ≠ none ↔ packageHash ∈ (sys.wallets address).acceptedTransferPackages)

theorem waits_turn (sys : MailboxSystem H) {address : Address} {row : MailboxRow H}
    {context : ValidationContext H} {input : TurnInput} {packageHash : H} {stored : MailboxRow H}
    (stored_eq : stored ∈ sys.mailbox.get? packageHash)
    (recipient_eq : stored.recipientAddr = address) :
    ∃ later ∈ (sys.step (.turn address row context input .completes)).mailbox.get? packageHash,
      later.recipientAddr = address := by
  obtain ⟨-, turn⟩ := (sys.wallets address).receivePending_spec sys.mailbox context input row
  simp only [MailboxSystem.step, turn]
  split
  · exact TransferMailboxStore.exists_markClaimed stored_eq recipient_eq
  · exact ⟨stored, stored_eq, recipient_eq⟩

/-- A completed turn settles its package, and keeps the others as they are. -/
theorem Settled.turn {address : Address} {row : MailboxRow H} {context : ValidationContext H}
    {input : TurnInput} {packageHash : H}
    (next_sound : (sys.step (.turn address row context input .completes)).Sound)
    (settled : sys.Settled address packageHash ∨ packageHash = transferPackageHash row.package) :
    (sys.step (.turn address row context input .completes)).Settled address packageHash := by
  intro other stored own
  refine ⟨fun claimed => own ▸ next_sound.claimed _ _ stored claimed, fun accepted => ?_⟩
  obtain ⟨-, turn⟩ := (sys.wallets address).receivePending_spec sys.mailbox context input row
  simp only [MailboxSystem.step, turn, MailboxSystem.move, Function.update_self] at stored accepted
  by_cases same : packageHash = transferPackageHash row.package
  · subst same
    rw [if_pos accepted] at stored
    obtain ⟨_, -, -, -, claimed_eq⟩ := TransferMailboxStore.get?_markClaimed_eq_some stored
    simp [claimed_eq]
  · have before := (LocalWalletDB.mem_accepted_receive same).mp accepted
    have settled_before := settled.resolve_right same
    split at stored
    · obtain ⟨original, original_eq, -, recipient_eq, claimed_eq⟩ :=
        TransferMailboxStore.get?_markClaimed_eq_some stored
      rw [if_neg (Ne.symm same)] at claimed_eq
      rw [claimed_eq]
      exact (settled_before original original_eq (recipient_eq ▸ own)).mpr before
    · exact (settled_before other stored own).mpr before

/-- The turns of packages that wait for a wallet settle them. -/
theorem Sound.settled_turns (ideal : IdealHash H) (sound : sys.Sound) {address : Address}
    {listed : List (H × MailboxRow H)} {turns : List (MailboxEvent H)}
    (are_turns : Turns address listed turns)
    (waiting : ∀ entry ∈ listed, transferPackageHash entry.2.package = entry.1 ∧
      ∃ stored ∈ sys.mailbox.get? entry.1, stored.recipientAddr = address) :
    Along MailboxSystem.step Addressed sys turns ∧ ∀ packageHash,
      sys.Settled address packageHash ∨ packageHash ∈ listed.map Prod.fst →
        (turns.foldl MailboxSystem.step sys).Settled address packageHash := by
  induction are_turns generalizing sys with
  | nil => exact ⟨trivial, fun packageHash settled => settled.resolve_right List.not_mem_nil⟩
  | @cons entry event rest turns is_turn _ induction =>
      obtain ⟨context, input, rfl⟩ := is_turn
      obtain ⟨⟨filed, waits⟩, waiting_rest⟩ := List.forall_mem_cons.mp waiting
      have addressed : sys.Addressed (.turn address entry.2 context input .completes) := by
        rw [← filed] at waits
        exact waits
      have next_sound := sound.step ideal addressed
      obtain ⟨along, settles⟩ := induction next_sound fun other member => by
        obtain ⟨other_filed, stored, stored_eq, recipient_eq⟩ := waiting_rest other member
        exact ⟨other_filed, sys.waits_turn stored_eq recipient_eq⟩
      refine ⟨⟨addressed, along⟩, fun packageHash settled => settles packageHash ?_⟩
      rw [List.map_cons, List.mem_cons, filed.symm, ← or_assoc] at settled
      exact settled.imp_left (Settled.turn next_sound)

/-- In every run, wherever the process stops, what is claimed in the mailbox was accepted by its
recipient, and a wallet is credited with a package twice only when the process stopped between the
record and the mark of an earlier credit. -/
theorem sound_of_along (ideal : IdealHash H) {genesisBlockHash : H} {events : List (MailboxEvent H)}
    (along : Along step Addressed (initial genesisBlockHash) events) :
    (events.foldl step (initial genesisBlockHash)).Sound :=
  along.invariant (fun _ _ sound addressed => sound.step ideal addressed)
    (sound_initial genesisBlockHash)

/-- A completed synchronisation of a session in a reachable state continues the run, reports every
package that it accepts and none that was accepted before, and leaves the packages that are
addressed to the session claimed if and only if they were accepted. -/
theorem syncIncomingTransfers_settles (ideal : IdealHash H) {genesisBlockHash : H}
    {events : List (MailboxEvent H)}
    (along : Along step Addressed (initial genesisBlockHash) events)
    {session : V2LocalAppSession H}
    (wallet_eq : (events.foldl step (initial genesisBlockHash)).wallets session.wallet.address =
      session.wallet)
    (mailbox_eq : (events.foldl step (initial genesisBlockHash)).mailbox = session.mailbox)
    (allocations : OrderedDict Address (List ValueRange)) (inputs : ℕ → TurnInput) :
    let result := session.syncIncomingTransfers allocations inputs
    (∃ turns, Along step Addressed (initial genesisBlockHash) (events ++ turns) ∧
      ((events ++ turns).foldl step (initial genesisBlockHash)).wallets session.wallet.address =
        result.2.wallet ∧
      ((events ++ turns).foldl step (initial genesisBlockHash)).mailbox = result.2.mailbox) ∧
    result.2.wallet.acceptedTransferPackages =
      (result.1.map V2ReceivedTransferEvent.packageHash).reverse ++
        session.wallet.acceptedTransferPackages ∧
    result.2.wallet.acceptedTransferPackages.Nodup ∧
    ∀ packageHash row, result.2.mailbox.get? packageHash = some row →
      row.recipientAddr = session.wallet.address →
        (row.claimedAt ≠ none ↔ packageHash ∈ result.2.wallet.acceptedTransferPackages) := by
  have sound : (events.foldl step (initial genesisBlockHash)).Sound :=
    along.invariant (fun _ _ sound addressed => sound.step ideal addressed)
      (sound_initial genesisBlockHash)
  generalize reached : events.foldl step (initial genesisBlockHash) =
    sys at wallet_eq mailbox_eq sound
  have waiting : ∀ entry ∈ session.incoming, transferPackageHash entry.2.package = entry.1 ∧
      ∃ stored ∈ sys.mailbox.get? entry.1, stored.recipientAddr = session.wallet.address := by
    intro entry member
    obtain ⟨stored, own, -⟩ := (session.mem_incoming entry).mp member
    rw [← mailbox_eq] at stored
    exact ⟨(sound.filed entry.1 entry.2 stored).1, entry.2, stored, own⟩
  obtain ⟨accepted_eq, turns, are_turns, wallets_after, mailbox_after⟩ :=
    sys.receiveListed_run session.wallet.address allocations inputs 0
      fun entry member => (waiting entry member).1
  rw [wallet_eq, mailbox_eq] at accepted_eq wallets_after mailbox_after
  obtain ⟨turns_along, settles⟩ := sound.settled_turns ideal are_turns waiting
  have final_sound := turns_along.invariant (fun _ _ sound addressed => sound.step ideal addressed)
    sound
  simp only [V2LocalAppSession.syncIncomingTransfers]
  rcases received : session.wallet.receiveListed session.mailbox allocations inputs 0
    session.incoming with ⟨reports, wallet, mailbox⟩
  rw [received] at accepted_eq wallets_after mailbox_after
  have wallet_after : (turns.foldl step sys).wallets session.wallet.address = wallet := by
    rw [wallets_after, Function.update_self]
  refine ⟨⟨turns, along_append.mpr ⟨along, reached ▸ turns_along⟩, ?_, ?_⟩, accepted_eq, ?_, ?_⟩
  · rw [List.foldl_append, reached, wallet_after]
  · rw [List.foldl_append, reached, mailbox_after]
  · rw [← wallet_after]
    exact final_sound.once session.wallet.address
  · intro packageHash row stored own
    rw [← wallet_after]
    refine settles packageHash ?_ row (mailbox_after ▸ stored) own
    by_cases member : packageHash ∈ session.incoming.map Prod.fst
    · exact .inr member
    · refine .inl fun original original_eq original_own => ?_
      have claimed : original.claimedAt ≠ none := by
        intro unclaimed
        refine member (List.mem_map.mpr ⟨(packageHash, original), ?_, rfl⟩)
        exact (session.mem_incoming _).mpr ⟨mailbox_eq ▸ original_eq, original_own, unclaimed⟩
      exact iff_of_true claimed (original_own ▸ sound.claimed packageHash original original_eq
        claimed)

section Examples

open SymbolicDigest ChainStateV2 V2TransferValidator

/-- Bob's first package is queued, stored by a turn that stops before its mark, and listed again. -/
def interruptedTurn : List (MailboxEvent SymbolicDigest) :=
  [.queue alice firstPackage 7,
    .turn bob ⟨alice, bob, 7, none, firstPackage⟩ aliceContext ⟨"whole", 8⟩ (.inside 2)]

theorem interruptedTurn_along : Along step Addressed (initial (filled 0)) interruptedTurn :=
  ⟨trivial, ⟨_, OrderedDict.get?_set_self _ _ _, rfl⟩, trivial⟩

theorem sound_of_along_interrupted :
    (interruptedTurn.foldl step (initial (filled 0))).Sound :=
  sound_of_along idealHash interruptedTurn_along

/-- Bob's session on a new backend, next to a mailbox that holds the package. -/
def mailboxSession : V2LocalAppSession SymbolicDigest where
  wallet := .new bob (filled 0)
  publicKeyPem := [1]
  chainId := 1
  consensus := .new 1 32 (filled 0)
  autoConfirmReceipts := true
  mailbox := TransferMailboxStore.enqueuePackage ∅ alice firstPackage.targetTx.recipientAddr
    firstPackage 7

theorem syncIncomingTransfers_settles_session :
    let result := mailboxSession.syncIncomingTransfers ∅ fun _ => ⟨"whole", 8⟩
    ∀ packageHash row, result.2.mailbox.get? packageHash = some row →
      row.recipientAddr = mailboxSession.wallet.address →
        (row.claimedAt ≠ none ↔ packageHash ∈ result.2.wallet.acceptedTransferPackages) :=
  (@syncIncomingTransfers_settles _ _ _ idealHash (filled 0) [.queue alice firstPackage 7]
    ⟨trivial, trivial⟩ mailboxSession rfl rfl ∅ fun _ => ⟨"whole", 8⟩).2.2.2

end Examples

end MailboxSystem

end EZChain
