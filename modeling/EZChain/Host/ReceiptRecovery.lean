import EZChain.Host.ChainSync
import EZChain.Host.Rollback
import EZChain.Wallet.Crash

/-!
# Receipt recovery

An account host asks its consensus peers for the receipts of its pending bundles.  The receipt comes
in a message of its own, which is handled while the host waits for the answer to its request, and
the host looks for it afterwards.  It does not look again after its second request, and then marks
the receipt as missing, even if it has come.
-/

namespace EZChain

open Program Runs

variable {H : Type}

/-! ## A wallet that waits for receipts -/

namespace LocalWalletDB

/-- How an account host calls its wallet: a bundle gets the next seq and fresh record ids. -/
def HostCalls (db : LocalWalletDB H) : WalletCall H → Prop
  | .buildBundle call => call.seq = db.nextSequence ∧ db.FreshIds call.recordIds
  | _ => True

/-- What the wallet of an account host keeps: no pending bundle has a receipt, and the records of a
bundle wait for it. -/
structure AwaitsReceipts (db : LocalWalletDB H) : Prop extends db.Settled where
  unreceived : ∀ seq context, db.getPendingBundle seq = some context → seq ∉ db.receipts.keys
  waiting : ∀ record ∈ db.records, Waits record →
    record.localStatus = .pendingBundle ∨ record.localStatus = .receiptMissing

/-- The call of a wallet that the handler of a message makes. -/
def Handles : WalletCall H → Prop
  | .onReceiptConfirmed _ | .observeCanonicalHeader _ | .receiveTransfer _ _ _ => True
  | .buildBundle _ | .addGenesisValue _ _ | .markReceiptMissing _ | .rollbackPendingBundle _ =>
      False

variable {db : LocalWalletDB H}

theorem lt_nextSequence {seq : ℕ} (received : seq ∈ db.receipts.keys) : seq < db.nextSequence := by
  refine Nat.lt_succ_of_le (List.le_max_of_le ?_ le_rfl)
  exact List.mem_append_left _ received

theorem Settled.not_waits (settled : db.Settled)
    (none_pending : ∀ seq, db.getPendingBundle seq = none) {record : LocalValueRecord H}
    (member : record ∈ db.records) : ¬ Waits record := by
  intro waits
  obtain ⟨seq, context, found, _⟩ :=
    (settled.waitsExactly record.recordId).mp ⟨record, member, rfl, waits⟩
  rw [none_pending] at found
  cases found

theorem Settled.awaitsReceipts_of_none (settled : db.Settled)
    (none_pending : ∀ seq, db.getPendingBundle seq = none) : db.AwaitsReceipts where
  toSettled := settled
  unreceived := by
    intro seq context found
    rw [none_pending] at found
    cases found
  waiting := fun _ member waits => absurd waits (settled.not_waits none_pending member)

/-- The records of a pending bundle wait. -/
theorem AwaitsReceipts.status_reserved (awaits : db.AwaitsReceipts) {seq : ℕ}
    {context : PendingBundleContext H} (pending : db.getPendingBundle seq = some context)
    {record : LocalValueRecord H} (member : record ∈ db.records)
    (reserved : record.recordId ∈ context.pendingRecordIds) :
    record.localStatus = .pendingBundle ∨ record.localStatus = .receiptMissing := by
  obtain ⟨other, other_mem, id_eq, waits⟩ :=
    (awaits.waitsExactly record.recordId).mpr ⟨seq, context, pending, reserved⟩
  obtain rfl := List.inj_on_of_nodup_map db.recordIds_nodup other_mem member id_eq
  exact awaits.waiting other other_mem waits

variable [Crypto H] [DecidableEq H]

omit [Crypto H] [DecidableEq H] in
theorem awaitsReceipts_new (address : Address) (genesisBlockHash : H) :
    (LocalWalletDB.new address genesisBlockHash).AwaitsReceipts :=
  (settled_new address genesisBlockHash).awaitsReceipts_of_none fun _ => rfl

omit [Crypto H] [DecidableEq H] in
theorem AwaitsReceipts.withRecord (awaits : db.AwaitsReceipts) {record : LocalValueRecord H}
    (fresh : record.recordId ∉ db.records.map LocalValueRecord.recordId)
    (spendable : record.localStatus = .verifiedSpendable) :
    (db.withRecord record fresh).AwaitsReceipts where
  toSettled := awaits.toSettled.withRecord fresh spendable
  unreceived := awaits.unreceived
  waiting := by
    intro other member waits
    rw [LocalWalletDB.withRecord, mem_records_withRecords, List.mem_append,
      List.mem_singleton] at member
    rcases member with earlier | rfl
    · exact awaits.waiting other earlier waits
    · exact absurd spendable waits.1

theorem AwaitsReceipts.afterBundle (awaits : db.AwaitsReceipts) {call : BundleCall}
    {context : PendingBundleContext H} {marked : List (LocalValueRecord H × Option Bool)}
    (built : db.BundleBuilt call context marked) (next_seq : call.seq = db.nextSequence)
    (nodup : ((marked.map Prod.fst).map LocalValueRecord.recordId).Nodup) :
    (db.afterBundle context (marked.map Prod.fst) nodup).AwaitsReceipts where
  toSettled := awaits.toSettled.afterBundle built nodup
  unreceived := by
    intro seq other found received
    obtain ⟨seq_eq, _⟩ := (getPendingBundle_withPendingBundle built.free).mp found
    have call_seq := (PaymentNetwork.name_of_built built).1
    have earlier : seq < db.nextSequence := lt_nextSequence received
    omega
  waiting := by
    intro record member waits
    obtain ⟨mark, marked_mem⟩ := mem_records_afterBundle.mp member
    cases mark with
    | none => exact awaits.waiting record (built.split.kept record marked_mem) waits
    | some outgoing => exact .inl (built.status_reserved marked_mem)

omit [Crypto H] [DecidableEq H] in
theorem AwaitsReceipts.afterMissing (awaits : db.AwaitsReceipts)
    (context : PendingBundleContext H) :
    (db.mapRecords (missRecord context.pendingRecordIds)
      (recordId_missRecord _)).AwaitsReceipts where
  toSettled := awaits.toSettled.afterMissing context
  unreceived := awaits.unreceived
  waiting := by
    intro record member waits
    obtain ⟨source, source_mem, rfl⟩ := mem_mapRecords.mp member
    have source_waits := (waits_missRecord_iff _ _).mp waits
    rw [missRecord]
    split_ifs
    · exact .inr rfl
    · exact awaits.waiting source source_mem source_waits

/-- A call of the host keeps what the wallet of an account host keeps. -/
theorem AwaitsReceipts.perform (awaits : db.AwaitsReceipts) {call : WalletCall H}
    (host_calls : db.HostCalls call) : (db.perform call).AwaitsReceipts := by
  cases call with
  | addGenesisValue value recordId =>
      by_cases taken : recordId ∈ db.records.map LocalValueRecord.recordId
      · rwa [perform_addGenesisValue_of_taken taken]
      · rw [perform_addGenesisValue taken]
        exact awaits.withRecord taken rfl
  | receiveTransfer package context recordId =>
      obtain ⟨newest, stores⟩ | ⟨sidecars, next_eq⟩ :=
        db.perform_receiveTransfer package context recordId
      · have stored : (db.withRecord (db.receivedRecord package recordId newest)
            stores.fresh).AwaitsReceipts := awaits.withRecord stores.fresh rfl
        rw [stores.perform_eq]
        exact ⟨⟨stored.waitsExactly, stored.single⟩, stored.unreceived, stored.waiting⟩
      · rw [next_eq]
        exact ⟨⟨awaits.waitsExactly, awaits.single⟩, awaits.unreceived, awaits.waiting⟩
  | buildBundle call =>
      obtain ⟨next_seq, fresh⟩ := host_calls
      obtain same | ⟨context, marked, nodup, built, next_eq⟩ := perform_buildBundle call fresh
      · rwa [same]
      · rw [next_eq]
        exact awaits.afterBundle built next_seq nodup
  | onReceiptConfirmed receipt =>
      obtain same | ⟨context, checked, _, next_eq⟩ := db.perform_onReceiptConfirmed receipt
      · rwa [same]
      · rw [next_eq]
        exact (awaits.toSettled.afterReceipt checked.pending).awaitsReceipts_of_none
          (awaits.single.get?_erase checked.pending)
  | markReceiptMissing seq =>
      cases found : db.getPendingBundle seq with
      | none => rwa [perform_markReceiptMissing_of_none found]
      | some context =>
          rw [perform_markReceiptMissing found]
          exact awaits.afterMissing context
  | rollbackPendingBundle seq =>
      cases found : db.getPendingBundle seq with
      | none => rwa [perform_rollbackPendingBundle_of_none found]
      | some context =>
          rw [(perform_rollbackPendingBundle found).1]
          exact (awaits.toSettled.afterRollback found).awaitsReceipts_of_none
            (awaits.single.get?_erase found)
  | observeCanonicalHeader header =>
      exact ⟨⟨awaits.waitsExactly, awaits.single⟩, awaits.unreceived, awaits.waiting⟩

/-- A handled message applies the receipt of a pending bundle, or leaves the bundles, the receipts
and the records as they are, up to a new record. -/
theorem perform_handled (db : LocalWalletDB H) {call : WalletCall H} (handles : Handles call) :
    (∃ receipt context, db.ReceiptChecked receipt context ∧
      db.perform call = db.afterReceipt receipt context) ∨
    ((db.perform call).pendingBundles = db.pendingBundles ∧
      (db.perform call).receipts = db.receipts ∧
      ∀ record ∈ (db.perform call).records,
        record ∈ db.records ∨ record.recordId ∉ db.records.map LocalValueRecord.recordId) := by
  cases call with
  | onReceiptConfirmed receipt =>
      obtain same | ⟨context, checked, _, next_eq⟩ := db.perform_onReceiptConfirmed receipt
      · rw [same]
        exact .inr ⟨rfl, rfl, fun _ => .inl⟩
      · exact .inl ⟨receipt, context, checked, next_eq⟩
  | observeCanonicalHeader header => exact .inr ⟨rfl, rfl, fun _ => .inl⟩
  | receiveTransfer package context recordId =>
      obtain ⟨newest, stores⟩ | ⟨sidecars, next_eq⟩ :=
        db.perform_receiveTransfer package context recordId
      · rw [stores.perform_eq]
        refine .inr ⟨rfl, rfl, fun record member => ?_⟩
        have stored : record ∈ (db.withRecord (db.receivedRecord package recordId newest)
          stores.fresh).records := member
        rcases List.mem_append.mp (mem_records_withRecords.mp stored) with earlier | new
        · exact .inl earlier
        · rw [List.mem_singleton.mp new]
          exact .inr stores.fresh
      · rw [next_eq]
        exact .inr ⟨rfl, rfl, fun _ => .inl⟩
  | buildBundle call => exact handles.elim
  | addGenesisValue value recordId => exact handles.elim
  | markReceiptMissing seq => exact handles.elim
  | rollbackPendingBundle seq => exact handles.elim

omit [Crypto H] [DecidableEq H] in
theorem hostCalls_of_handles {call : WalletCall H} (handles : Handles call) :
    db.HostCalls call := by
  cases call with
  | buildBundle call => exact handles.elim
  | _ => trivial

/-! ### One bundle -/

/-- The bundle of a seq waits for its receipt. -/
structure Awaiting (db : LocalWalletDB H) (seq : ℕ) (context : PendingBundleContext H) : Prop where
  awaits : db.AwaitsReceipts
  pending : db.getPendingBundle seq = some context

/-- The bundle of a seq waits, and all of its records are marked. -/
structure Missed (db : LocalWalletDB H) (seq : ℕ) (context : PendingBundleContext H) : Prop
    extends db.Awaiting seq context where
  missing : ∀ record ∈ db.records, record.recordId ∈ context.pendingRecordIds →
    record.localStatus = .receiptMissing

/-- The receipt of a seq is stored, and no bundle is pending. -/
structure Applied (db : LocalWalletDB H) (seq : ℕ) : Prop where
  none_pending : ∀ other, db.getPendingBundle other = none
  received : seq ∈ db.receipts.keys

variable {seq : ℕ} {context : PendingBundleContext H} {call : WalletCall H}

omit [Crypto H] [DecidableEq H] in
/-- A wallet lists the one pending bundle that it has. -/
theorem Awaiting.keys_eq (awaiting : db.Awaiting seq context) : db.pendingBundles.keys = [seq] := by
  have all_eq : ∀ other ∈ db.pendingBundles.keys, other = seq := by
    intro other member
    cases found : db.getPendingBundle other with
    | none => exact absurd member ((OrderedDict.get?_eq_none_iff _ _).mp found)
    | some otherContext =>
        exact awaiting.awaits.single other seq otherContext context found awaiting.pending
  have nodup : db.pendingBundles.keys.Nodup := db.pendingBundles.nodup
  cases keys_eq : db.pendingBundles.keys with
  | nil =>
      have absent : db.getPendingBundle seq = none := getPendingBundle_of_free keys_eq seq
      cases awaiting.pending.symm.trans absent
  | cons first rest =>
      rw [keys_eq] at all_eq nodup
      obtain ⟨rfl, rest_eq⟩ := List.forall_mem_cons.mp all_eq
      cases rest with
      | nil => rfl
      | cons second rest =>
          obtain rfl := rest_eq second List.mem_cons_self
          exact absurd List.mem_cons_self (List.nodup_cons.mp nodup).1

omit [Crypto H] [DecidableEq H] in
theorem Awaiting.unreceived (awaiting : db.Awaiting seq context) : seq ∉ db.receipts.keys :=
  awaiting.awaits.unreceived seq context awaiting.pending

theorem handled_of_none_pending (none_pending : ∀ seq, db.getPendingBundle seq = none)
    (handles : Handles call) : (∀ seq, (db.perform call).getPendingBundle seq = none) ∧
      (db.perform call).receipts = db.receipts := by
  obtain ⟨receipt, other, checked, _⟩ | ⟨pending_eq, receipts_eq, _⟩ := db.perform_handled handles
  · have pending := checked.pending
    rw [none_pending] at pending
    cases pending
  · refine ⟨fun seq => ?_, receipts_eq⟩
    rw [getPendingBundle, pending_eq]
    exact none_pending seq

theorem Applied.handled (applied : db.Applied seq) (handles : Handles call) :
    (db.perform call).Applied seq := by
  obtain ⟨none_pending, receipts_eq⟩ := handled_of_none_pending applied.none_pending handles
  exact ⟨none_pending, receipts_eq ▸ applied.received⟩

theorem Awaiting.handled (awaiting : db.Awaiting seq context) (handles : Handles call) :
    (db.perform call).Awaiting seq context ∨ (db.perform call).Applied seq := by
  obtain ⟨receipt, other, checked, next_eq⟩ | ⟨pending_eq, _, _⟩ := db.perform_handled handles
  · have single := awaiting.awaits.single
    obtain rfl := single receipt.seq seq other context checked.pending awaiting.pending
    rw [next_eq]
    exact .inr ⟨single.get?_erase checked.pending,
      (OrderedDict.mem_keys_set _ _ _ _).mpr (.inl rfl)⟩
  · refine .inl ⟨awaiting.awaits.perform (hostCalls_of_handles handles), ?_⟩
    rw [getPendingBundle, pending_eq]
    exact awaiting.pending

theorem Missed.handled (missed : db.Missed seq context) (handles : Handles call) :
    (db.perform call).Missed seq context ∨ (db.perform call).Applied seq := by
  obtain awaiting | applied := missed.toAwaiting.handled handles
  · obtain ⟨receipt, other, checked, next_eq⟩ | ⟨_, _, records⟩ := db.perform_handled handles
    · have none_pending := missed.awaits.single.get?_erase checked.pending seq
      have pending := awaiting.pending
      rw [next_eq, getPendingBundle] at pending
      cases none_pending.symm.trans pending
    · refine .inl ⟨awaiting, fun record member reserved => ?_⟩
      obtain earlier | new := records record member
      · exact missed.missing record earlier reserved
      · -- The ids that a bundle reserves are those of records.
        obtain ⟨other, other_mem, id_eq, _⟩ :=
          (missed.awaits.waitsExactly record.recordId).mpr ⟨seq, context, missed.pending, reserved⟩
        exact absurd (id_eq ▸ List.mem_map_of_mem other_mem) new
  · exact .inr applied

theorem Awaiting.missed (awaiting : db.Awaiting seq context) :
    (db.perform (.markReceiptMissing seq)).Missed seq context := by
  rw [perform_markReceiptMissing awaiting.pending]
  refine ⟨⟨awaiting.awaits.afterMissing context, awaiting.pending⟩, ?_⟩
  intro record member reserved
  obtain ⟨source, source_mem, rfl⟩ := mem_mapRecords.mp member
  rw [recordId_missRecord] at reserved
  rw [missRecord]
  rcases awaiting.awaits.status_reserved awaiting.pending source_mem reserved with waits | missing
  · rw [if_pos ⟨reserved, waits⟩]
  · rw [if_neg (by simp [missing])]
    exact missing

theorem Awaiting.execute_markReceiptMissing (awaiting : db.Awaiting seq context) :
    db.execute (db.markReceiptMissing seq) =
      (.ok context, db.perform (.markReceiptMissing seq)) := by
  have planned := markReceiptMissing_eq_ok.mpr ⟨awaiting.pending, rfl⟩
  have nodup := db.nodup_map_recordId (recordId_missRecord context.pendingRecordIds)
  refine Prod.ext (execute_eq_ok.mpr ⟨_, planned, ?_⟩) (execute_forget_snd _).symm
  rw [commitAll_cons (commit_replaceValueRecords nodup)]
  rfl

omit [Crypto H] in
theorem Applied.execute_markReceiptMissing [Crypto H] (applied : db.Applied seq) :
    db.execute (db.markReceiptMissing seq) =
      (.error "no pending bundle matches seq", db) := by
  rw [markReceiptMissing, applied.none_pending]
  rfl

end LocalWalletDB

/-! ## The recovery -/

/-- An account host while it recovers receipts. -/
structure RecoveryHost (H : Type) where
  /-- The peers, the chain cursor and the fetched blocks; the wallet stands beside them. -/
  network : AccountHost H
  wallet : LocalWalletDB H
  /-- History: a peer has answered since the host last listed its peers. -/
  answered : Bool
  /-- History: the wallet when the host last looked for a receipt. -/
  lookedUp : LocalWalletDB H

/-- What the recovery does with the wallet, and what others do meanwhile. -/
inductive ReceiptOp (H : Type) : Type → Type where
  | listPendingBundles : ReceiptOp H (List ℕ)
  | latestReceiptForSeq (seq : ℕ) : ReceiptOp H Bool
  | markReceiptMissing (seq : ℕ) : ReceiptOp H (Except String (PendingBundleContext H))
  /-- The handler of a message calls the wallet. -/
  | handle (call : WalletCall H) : ReceiptOp H Unit
  /-- The handler of a message changes what the host knows of the network. -/
  | disturb (change : AccountHost H → AccountHost H) : ReceiptOp H Unit

/-- One operation during the recovery. -/
abbrev RecoveryOp (H : Type) (β : Type) : Type := HostOp H β ⊕ ReceiptOp H β

namespace RecoveryOp

/-- An operation on the network. -/
def embed (β : Type) (operation : HostOp H β) : RecoveryOp H β := .inl operation

/-- Whether a peer has answered, once an operation on the network is performed. -/
def answeredAfter {β : Type} (input : HostInput H) (answered : Bool) : HostOp H β → Bool
  | .consensusPeerIds => false
  | .send _ _ => answered || input.response.toOption.isSome
  | _ => answered

section Programs

open Handler

/-- The loop of `_request_receipt_for_seq`. -/
def requestReceiptFrom (seq : ℕ) (peerIds : List String) : Handler (RecoveryOp H) Bool :=
  HostOp.requestReceiptFrom embed (perform (.inr (.latestReceiptForSeq seq))) seq peerIds

/-- `_request_receipt_for_seq`, without a preferred peer. -/
def requestReceiptForSeq (seq : ℕ) : Handler (RecoveryOp H) Bool :=
  HostOp.requestReceiptForSeq embed (perform (.inr (.latestReceiptForSeq seq))) none seq

variable [DecidableEq H]

/-- What `sync_pending_receipts` does with the response to its second request: whether it finds the
receipt after a third one. -/
def retryReceipt (seq : ℕ) (response : PeerResponse H) : Handler (RecoveryOp H) Bool :=
  if response.status = some "missing" then do
    let retried ← Handler.lift embed (HostOp.retryOnMissingAfterRefresh (.receipt seq))
    match retried.bind PeerResponse.status with
    | some "ok" => perform (.inr (.latestReceiptForSeq seq))
    | some "missing" => perform (.inr (.latestReceiptForSeq seq))
    | _ => pure false
  else pure false

/-- The body of the loop of `sync_pending_receipts`: whether the receipt is counted. -/
def syncPendingReceipt (seq : ℕ) : Handler (RecoveryOp H) (Except String Bool) := do
  let _ ← Handler.lift embed HostOp.refreshBestPeerIfPreferredStale
  let applied ← requestReceiptForSeq seq
  if applied then pure (.ok true)
  else do
    let response ← Handler.lift embed (HostOp.sendToConsensus (.receipt seq))
    let retried ← retryReceipt seq response
    if retried then pure (.ok true)
    else do
      let marked ← perform (.inr (.markReceiptMissing seq))
      pure (marked.map fun _ => false)

/-- The loop of `sync_pending_receipts`. -/
def syncListed : List ℕ → ℕ → Handler (RecoveryOp H) (Except String ℕ)
  | [], applied => pure (.ok applied)
  | seq :: rest, applied => do
      let synced ← syncPendingReceipt seq
      match synced with
      | .error message => pure (.error message)
      | .ok counted => syncListed rest (if counted then applied + 1 else applied)

/-- `sync_pending_receipts`.  An error of the wallet is its result; it raises where a request is
answered by no peer. -/
def syncPendingReceipts : Handler (RecoveryOp H) (Except String ℕ) := do
  let pending ← perform (.inr .listPendingBundles)
  syncListed pending 0

end Programs

variable [Crypto H] [DecidableEq H]

/-- Perform one operation. -/
def exec : {β : Type} → RecoveryOp H β → HostInput H → RecoveryHost H → β × RecoveryHost H
  | _, .inl operation, input, host =>
      let performed := host.network.exec input operation
      (performed.1,
        { host with
          network := performed.2
          answered := answeredAfter input host.answered operation })
  | _, .inr .listPendingBundles, _, host =>
      (host.wallet.pendingBundles.keys.insertionSort (· ≤ ·), host)
  | _, .inr (.latestReceiptForSeq seq), _, host =>
      (seq ∈ host.wallet.receipts.keys, { host with lookedUp := host.wallet })
  | _, .inr (.markReceiptMissing seq), _, host =>
      let marked := host.wallet.execute (host.wallet.markReceiptMissing seq)
      (marked.1, { host with wallet := marked.2 })
  | _, .inr (.handle call), _, host => ((), { host with wallet := host.wallet.perform call })
  | _, .inr (.disturb change), _, host => ((), { host with network := change host.network })

/-- What others do during the recovery: they handle messages. -/
def Meanwhile : Performance (RecoveryOp H) (HostInput H) → Prop
  | ⟨.inr (.handle call), _⟩ => LocalWalletDB.Handles call
  | ⟨.inr (.disturb _), _⟩ => True
  | _ => False

end RecoveryOp

/-! ## What a recovery is for -/

/-- The receipt of a seq is applied between two states of a wallet. -/
def ReceiptApplied (before after : LocalWalletDB H) (seq : ℕ) : Prop :=
  seq ∉ before.receipts.keys ∧ seq ∈ after.receipts.keys

instance (before after : LocalWalletDB H) : DecidablePred (ReceiptApplied before after) :=
  fun _ => inferInstanceAs (Decidable (_ ∧ _))

/-- The recovery raises nothing, counts the receipts that were applied, and leaves exactly the other
bundles pending, with their records marked. -/
structure Recovers (before after : LocalWalletDB H) (returned : Except String ℕ) : Prop where
  returned_eq : returned =
    .ok (before.pendingBundles.keys.countP fun seq => ReceiptApplied before after seq)
  pending : ∀ seq context, after.getPendingBundle seq = some context ↔
    before.getPendingBundle seq = some context ∧ ¬ ReceiptApplied before after seq
  missing : ∀ seq context, after.getPendingBundle seq = some context →
    ∀ record ∈ after.records, record.recordId ∈ context.pendingRecordIds →
      record.localStatus = .receiptMissing

namespace RecoveryOp

variable [Crypto H] [DecidableEq H] {seq : ℕ} {context : PendingBundleContext H}

/-! ## Assertions -/

/-- An assertion about the wallet now and the wallet that the host last looked at. -/
def Holds (assertion : LocalWalletDB H → LocalWalletDB H → Prop) (host : RecoveryHost H) : Prop :=
  assertion host.wallet host.lookedUp

/-- No peer has answered since the host last listed its peers. -/
def Unanswered (host : RecoveryHost H) : Prop := host.answered = false

/-- The assertion survives the handling of messages. -/
def Survives (assertion : LocalWalletDB H → LocalWalletDB H → Prop) : Prop :=
  ∀ call, LocalWalletDB.Handles call → ∀ wallet lookedUp, assertion wallet lookedUp →
    assertion (wallet.perform call) lookedUp

theorem effect_meanwhile {performance : Performance (RecoveryOp H) (HostInput H)}
    (meanwhile : Meanwhile performance) (host : RecoveryHost H) :
    (effect exec host performance).answered = host.answered ∧
      (effect exec host performance).lookedUp = host.lookedUp ∧
      ((effect exec host performance).wallet = host.wallet ∨
        ∃ call, LocalWalletDB.Handles call ∧
          (effect exec host performance).wallet = host.wallet.perform call) := by
  obtain ⟨operation, input⟩ := performance
  rcases operation with operation | operation
  · exact meanwhile.elim
  · cases operation with
    | handle call => exact ⟨rfl, rfl, .inr ⟨call, meanwhile, rfl⟩⟩
    | disturb change => exact ⟨rfl, rfl, .inl rfl⟩
    | listPendingBundles => exact meanwhile.elim
    | latestReceiptForSeq seq => exact meanwhile.elim
    | markReceiptMissing seq => exact meanwhile.elim

theorem Survives.stable {assertion : LocalWalletDB H → LocalWalletDB H → Prop}
    (survives : Survives assertion) : Stable exec Meanwhile (Holds assertion) := by
  intro performance meanwhile host holds
  obtain ⟨_, looked_eq, wallet_eq | ⟨call, handles, wallet_eq⟩⟩ := effect_meanwhile meanwhile host
  · rw [Holds]
    rwa [looked_eq, wallet_eq]
  · rw [Holds]
    rw [looked_eq, wallet_eq]
    exact survives call handles host.wallet host.lookedUp holds

theorem stable_unanswered : Stable (exec (H := H)) Meanwhile Unanswered := by
  intro performance meanwhile host unanswered
  exact (effect_meanwhile meanwhile host).1.trans unanswered

/-- What a part of the recovery ensures among others: it raises only where a request is answered by
no peer. -/
abbrev Ensures {α : Type} (pre : RecoveryHost H → Prop) (handler : Handler (RecoveryOp H) α)
    (post : α → RecoveryHost H → Prop) : Prop :=
  Handler.Ensures exec (fun _ => True) Meanwhile Unanswered pre handler post

/-! ## Requests -/

omit [Crypto H] [DecidableEq H] in
theorem quiet_consensusPeerId : Handler.Quiet (HostOp.consensusPeerId (H := H)) :=
  (Handler.quiet_perform _).bind fun _ => Handler.quiet_pure _

omit [Crypto H] [DecidableEq H] in
theorem quiet_queryChainStateFromPeer (peerId : String) :
    Handler.Quiet (HostOp.queryChainStateFromPeer (H := H) peerId) :=
  (Handler.quiet_perform _).bind fun _ => Handler.quiet_pure _

omit [Crypto H] in
theorem quiet_refreshBestPeerIfPreferredStale :
    Handler.Quiet (HostOp.refreshBestPeerIfPreferredStale (H := H)) := by
  refine quiet_consensusPeerId.bind fun peerId => ?_
  refine (quiet_queryChainStateFromPeer peerId).bind fun preferredCursor => ?_
  refine (Handler.quiet_perform _).bind fun known => ?_
  split
  · exact Handler.quiet_pure _
  · refine quiet_consensusPeerId.bind fun stalePeerId => ?_
    refine (Handler.quiet_perform _).bind fun previousCursor => ?_
    refine (Handler.quiet_attempt _).bind fun refreshed => ?_
    refine quiet_consensusPeerId.bind fun peerId => ?_
    split <;> exact Handler.quiet_pure _

section Network

variable {assertion : LocalWalletDB H → LocalWalletDB H → Prop} (survives : Survives assertion)
include survives

theorem ensures_network {α : Type} {handler : Handler (HostOp H) α}
    (quiet : Handler.Quiet handler) :
    Ensures (Holds assertion)
      (Handler.lift embed handler) fun _ => Holds assertion := by
  have uses : (Handler.lift embed handler).run.Uses fun γ operation =>
      ∃ inner : HostOp H γ, operation = .inl inner :=
    uses_mapOperations embed (fun _ inner => ⟨inner, rfl⟩) handler.run
  refine (quiet.lift embed).ensures (Handler.ensures_of_uses survives.stable uses ?_)
  rintro ⟨operation, input⟩ ⟨inner, operation_eq⟩ _ host holds
  cases operation with
  | inl operation => exact holds
  | inr operation => cases operation_eq

/-- The loop raises when no peer has answered. -/
theorem ensures_sendToFirst (request : PeerRequest H) (peerIds : List String)
    (lastError : String) :
    Ensures (fun host => Holds assertion host ∧ Unanswered host)
      (Handler.lift embed (HostOp.sendToFirst request peerIds lastError))
      fun _ => Holds assertion := by
  have stable := survives.stable
  have both : Stable exec Meanwhile fun host : RecoveryHost H =>
      Holds assertion host ∧ Unanswered host :=
    fun performance meanwhile host holds =>
      ⟨stable performance meanwhile host holds.1,
        stable_unanswered performance meanwhile host holds.2⟩
  induction peerIds generalizing lastError with
  | nil => exact Handler.ensures_throw (fun _ holds => holds.2) stable_unanswered
  | cons peerId rest induction =>
      have sends : Ensures (fun host => Holds assertion host ∧ Unanswered host)
          (Handler.lift embed (Handler.perform (.send peerId request)))
          fun answer host => Holds assertion host ∧
            ∀ message, answer = .error message → Unanswered host := by
        refine Handler.ensures_perform both ?_ ?_
        · intro answer performance meanwhile host holds
          exact ⟨stable performance meanwhile host holds.1, fun message failed =>
            stable_unanswered performance meanwhile host (holds.2 message failed)⟩
        · intro input host holds _
          refine ⟨holds.1, fun message failed => ?_⟩
          have response_eq : input.response = .error message := failed
          have unanswered : host.answered = false := holds.2
          change (host.answered || input.response.toOption.isSome) = false
          rw [unanswered, response_eq]
          rfl
      rw [HostOp.sendToFirst, Handler.lift_bind]
      refine Handler.ensures_bind stable_unanswered sends fun answer => ?_
      cases answer with
      | error message =>
          exact (induction message).of_stronger fun _ holds =>
            ⟨holds.1, holds.2 message rfl⟩
      | ok response =>
          have promotes := ensures_network survives
            (Handler.quiet_perform (HostOp.promoteConsensusPeer (H := H) peerId))
          refine (Handler.ensures_bind stable_unanswered promotes fun _ => ?_).of_stronger
            fun _ holds => holds.1
          exact Handler.ensures_pure (fun _ holds => holds) stable

theorem ensures_sendToConsensus (request : PeerRequest H) :
    Ensures (Holds assertion)
      (Handler.lift embed (HostOp.sendToConsensus request)) fun _ => Holds assertion := by
  have stable := survives.stable
  rw [HostOp.sendToConsensus, Handler.lift_bind]
  refine Handler.ensures_bind stable_unanswered ?_
    fun peerIds => ensures_sendToFirst survives request peerIds _
  refine Handler.ensures_perform stable ?_ fun input host holds _ => ⟨holds, rfl⟩
  intro peerIds performance meanwhile host holds
  exact ⟨stable performance meanwhile host holds.1,
    stable_unanswered performance meanwhile host holds.2⟩

theorem ensures_retryOnMissingAfterRefresh (request : PeerRequest H) :
    Ensures (Holds assertion)
      (Handler.lift embed (HostOp.retryOnMissingAfterRefresh request))
      fun _ => Holds assertion := by
  have ends (previousPeerId : String) (refreshed : Bool) :
      Ensures (Holds assertion)
        (Handler.lift embed (do
          let peerId ← HostOp.consensusPeerId
          if refreshed ∧ peerId ≠ previousPeerId then some <$> HostOp.sendToConsensus request
          else pure none)) fun _ => Holds assertion := by
    rw [Handler.lift_bind]
    refine Handler.ensures_bind stable_unanswered
      (ensures_network survives quiet_consensusPeerId) fun peerId => ?_
    split
    · rw [Handler.map_eq_bind, Handler.lift_bind]
      refine Handler.ensures_bind stable_unanswered (ensures_sendToConsensus survives request)
        fun response => ?_
      exact Handler.ensures_pure (fun _ holds => holds) survives.stable
    · exact Handler.ensures_pure (fun _ holds => holds) survives.stable
  rw [HostOp.retryOnMissingAfterRefresh]
  rw [Handler.lift_bind]
  refine Handler.ensures_bind stable_unanswered
    (ensures_network survives quiet_consensusPeerId) fun previousPeerId => ?_
  rw [Handler.lift_bind]
  refine Handler.ensures_bind stable_unanswered
    (ensures_network survives quiet_refreshBestPeerIfPreferredStale) fun better => ?_
  dsimp only
  split
  · exact ends previousPeerId true
  · rw [Handler.map_eq_bind, Handler.lift_bind]
    have quiet := (Handler.quiet_attempt (HostOp.refreshChainState (H := H))).bind fun cursor =>
      Handler.quiet_pure cursor.isSome
    exact Handler.ensures_bind stable_unanswered (ensures_network survives quiet)
      fun refreshed => ends previousPeerId refreshed

end Network

/-! ## One bundle -/

section Bundle

variable (seq : ℕ) (context : PendingBundleContext H)

/-- The bundle is pending, or its receipt has been applied. -/
def Open (wallet _lookedUp : LocalWalletDB H) : Prop :=
  wallet.Awaiting seq context ∨ wallet.Applied seq

/-- What a look for the receipt says. -/
def Looked : Bool → LocalWalletDB H → LocalWalletDB H → Prop
  | true, wallet, lookedUp => wallet.Applied seq ∧ seq ∈ lookedUp.receipts.keys
  | false, wallet, lookedUp => Open seq context wallet lookedUp ∧ seq ∉ lookedUp.receipts.keys

/-- How the recovery of the bundle ends. -/
def Synced : Except String Bool → LocalWalletDB H → LocalWalletDB H → Prop
  | .ok true, wallet, lookedUp => wallet.Applied seq ∧ seq ∈ lookedUp.receipts.keys
  | .ok false, wallet, lookedUp =>
      (wallet.Missed seq context ∨ wallet.Applied seq) ∧ seq ∉ lookedUp.receipts.keys
  | .error _, wallet, lookedUp => wallet.Applied seq ∧ seq ∉ lookedUp.receipts.keys

variable {seq context}

theorem survives_open : Survives (Open seq context) := by
  rintro call handles wallet lookedUp (awaiting | applied)
  · exact awaiting.handled handles
  · exact .inr (applied.handled handles)

theorem survives_looked (found : Bool) : Survives (Looked seq context found) := by
  intro call handles wallet lookedUp looked
  cases found with
  | true => exact ⟨looked.1.handled handles, looked.2⟩
  | false => exact ⟨survives_open call handles wallet lookedUp looked.1, looked.2⟩

theorem survives_synced (result : Except String Bool) : Survives (Synced seq context result) := by
  rintro call handles wallet lookedUp synced
  rcases result with message | _ | _
  · exact ⟨synced.1.handled handles, synced.2⟩
  · obtain ⟨missed | applied, unseen⟩ := synced
    · exact ⟨missed.handled handles, unseen⟩
    · exact ⟨.inr (applied.handled handles), unseen⟩
  · exact ⟨synced.1.handled handles, synced.2⟩

theorem ensures_latestReceiptForSeq :
    Ensures (Holds (Open seq context))
      (Handler.perform (.inr (.latestReceiptForSeq seq)))
      fun found => Holds (Looked seq context found) := by
  refine Handler.ensures_perform survives_open.stable
    (fun found => (survives_looked found).stable) ?_
  intro input host is_open _
  change Looked seq context (decide (seq ∈ host.wallet.receipts.keys)) host.wallet host.wallet
  rcases is_open with awaiting | applied
  · rw [decide_eq_false awaiting.unreceived]
    exact ⟨.inl awaiting, awaiting.unreceived⟩
  · rw [decide_eq_true applied.received]
    exact ⟨applied, applied.received⟩

theorem ensures_requestReceiptFrom (peerIds : List String) :
    Ensures (Holds (Open seq context))
      (requestReceiptFrom seq peerIds) fun found => Holds (Looked seq context found) := by
  have performs {α : Type} (operation : HostOp H α) :
      Ensures (Holds (Open seq context))
        (Handler.perform (.inl operation)) fun _ => Holds (Open seq context) :=
    ensures_network survives_open (Handler.quiet_perform operation)
  induction peerIds with
  | nil => exact ensures_latestReceiptForSeq
  | cons peerId rest induction =>
      rw [requestReceiptFrom]
      refine Handler.ensures_bind stable_unanswered (performs _) fun answer => ?_
      cases answer with
      | error message => exact induction
      | ok response =>
          refine Handler.ensures_bind stable_unanswered (performs _) fun _ => ?_
          refine Handler.ensures_bind stable_unanswered ensures_latestReceiptForSeq fun found => ?_
          cases found with
          | true => exact Handler.ensures_pure (fun _ seen => seen) (survives_looked true).stable
          | false =>
              exact induction.of_stronger fun _ unseen => unseen.1

theorem ensures_requestReceiptForSeq :
    Ensures (Holds (Open seq context))
      (requestReceiptForSeq seq) fun found => Holds (Looked seq context found) := by
  refine Handler.ensures_bind stable_unanswered ensures_latestReceiptForSeq fun found => ?_
  cases found with
  | true => exact Handler.ensures_pure (fun _ seen => seen) (survives_looked true).stable
  | false =>
      have lists : Ensures (Holds (Open seq context)) (Handler.perform (.inl (.consensusPeerIds)))
          fun _ => Holds (Open seq context) :=
        ensures_network survives_open (Handler.quiet_perform HostOp.consensusPeerIds)
      refine (Handler.ensures_bind stable_unanswered lists fun peerIds =>
        ensures_requestReceiptFrom (normalizePeerIds peerIds)).of_stronger
          fun _ unseen => unseen.1

theorem ensures_retryReceipt (response : PeerResponse H) :
    Ensures (Holds (Looked seq context false)) (retryReceipt seq response)
      fun found => Holds (Looked seq context found) := by
  have gives_up : Ensures (Holds (Looked seq context false)) (pure false)
      fun found => Holds (Looked seq context found) :=
    Handler.ensures_pure (fun _ unseen => unseen) (survives_looked false).stable
  have looks : Ensures (Holds (Looked seq context false))
      (Handler.perform (.inr (.latestReceiptForSeq seq)))
      fun found => Holds (Looked seq context found) :=
    ensures_latestReceiptForSeq.of_stronger fun _ unseen => unseen.1
  rw [retryReceipt]
  split
  · refine Handler.ensures_bind stable_unanswered
      (ensures_retryOnMissingAfterRefresh (survives_looked false) _) fun retried => ?_
    split
    · exact looks
    · exact looks
    · exact gives_up
  · exact gives_up

theorem ensures_markReceiptMissing :
    Ensures (Holds (Looked seq context false))
      (Handler.perform (.inr (.markReceiptMissing seq)))
      fun marked => Holds (Synced seq context (marked.map fun _ => false)) := by
  refine Handler.ensures_perform (survives_looked false).stable
    (fun marked => (survives_synced _).stable) ?_
  rintro input host ⟨awaiting | applied, unseen⟩ _
  · simp only [exec, awaiting.execute_markReceiptMissing]
    exact ⟨.inl awaiting.missed, unseen⟩
  · simp only [exec, applied.execute_markReceiptMissing]
    exact ⟨applied, unseen⟩

theorem ensures_syncPendingReceipt :
    Ensures (Holds (Open seq context))
      (syncPendingReceipt seq) fun synced => Holds (Synced seq context synced) := by
  have counts : Ensures (Holds (Looked seq context true)) (pure (.ok true))
      fun synced => Holds (Synced seq context synced) :=
    Handler.ensures_pure (fun _ seen => seen) (survives_synced (.ok true)).stable
  refine Handler.ensures_bind stable_unanswered
    (ensures_network survives_open quiet_refreshBestPeerIfPreferredStale) fun _ => ?_
  refine Handler.ensures_bind stable_unanswered ensures_requestReceiptForSeq fun applied => ?_
  cases applied with
  | true => exact counts
  | false =>
      refine Handler.ensures_bind stable_unanswered
        (ensures_sendToConsensus (survives_looked false) _) fun response => ?_
      refine Handler.ensures_bind stable_unanswered (ensures_retryReceipt response)
        fun retried => ?_
      cases retried with
      | true => exact counts
      | false =>
          refine Handler.ensures_bind stable_unanswered ensures_markReceiptMissing fun marked => ?_
          exact Handler.ensures_pure (fun _ synced => synced) (survives_synced _).stable

/-- The number of receipts that the recovery of one bundle counts. -/
def counted (synced : Except String Bool) : Except String ℕ :=
  synced.map fun counted => if counted then 1 else 0

theorem ensures_syncListed :
    Ensures (Holds (Open seq context))
      (syncListed [seq] 0) fun returned => Holds fun wallet lookedUp =>
        ∃ synced, returned = counted synced ∧ Synced seq context synced wallet lookedUp := by
  have survives (returned : Except String ℕ) : Survives fun wallet lookedUp =>
      ∃ synced, returned = counted synced ∧ Synced seq context synced wallet lookedUp := by
    rintro call handles wallet lookedUp ⟨synced, returned_eq, ended⟩
    exact ⟨synced, returned_eq, survives_synced synced call handles wallet lookedUp ended⟩
  refine Handler.ensures_bind stable_unanswered ensures_syncPendingReceipt fun synced => ?_
  cases synced with
  | error message =>
      exact Handler.ensures_pure (fun _ ended => ⟨.error message, rfl, ended⟩) (survives _).stable
  | ok found =>
      refine Handler.ensures_pure (fun _ ended => ⟨.ok found, ?_, ended⟩) (survives _).stable
      cases found <;> rfl

end Bundle

end RecoveryOp

/-! ## A whole recovery -/

namespace LocalWalletDB

variable {before after lookedUp : LocalWalletDB H} {seq : ℕ} {context : PendingBundleContext H}

theorem Awaiting.countP_eq (awaiting : before.Awaiting seq context) (good : ℕ → Prop)
    [DecidablePred good] :
    before.pendingBundles.keys.countP (fun seq => good seq) = if good seq then 1 else 0 := by
  rw [awaiting.keys_eq, List.countP_singleton]
  simp

theorem Awaiting.receiptApplied (awaiting : before.Awaiting seq context)
    (applied : after.Applied seq) : ReceiptApplied before after seq :=
  ⟨awaiting.unreceived, applied.received⟩

theorem Awaiting.recovers_of_applied (awaiting : before.Awaiting seq context)
    (applied : after.Applied seq) : Recovers before after (.ok 1) where
  returned_eq := by rw [awaiting.countP_eq, if_pos (awaiting.receiptApplied applied)]
  pending := by
    intro other otherContext
    refine iff_of_false (fun found => ?_) fun ⟨found, not_applied⟩ => ?_
    · cases (applied.none_pending other).symm.trans found
    · obtain rfl := awaiting.awaits.single other seq otherContext context found awaiting.pending
      exact not_applied (awaiting.receiptApplied applied)
  missing := by
    intro other otherContext found
    cases (applied.none_pending other).symm.trans found

/-- A wallet whose only bundle still waits. -/
theorem Awaiting.recovers_of_missed (awaiting : before.Awaiting seq context)
    (missed : after.Missed seq context) : Recovers before after (.ok 0) := by
  have not_applied : ¬ ReceiptApplied before after seq := fun applied =>
    missed.unreceived applied.2
  constructor
  case returned_eq => rw [awaiting.countP_eq, if_neg not_applied]
  case pending =>
    intro other otherContext
    constructor
    · intro found
      obtain rfl := missed.awaits.single other seq otherContext context found missed.pending
      rw [missed.pending] at found
      exact ⟨found ▸ awaiting.pending, not_applied⟩
    · rintro ⟨found, -⟩
      obtain rfl := awaiting.awaits.single other seq otherContext context found awaiting.pending
      rw [awaiting.pending] at found
      exact found ▸ missed.pending
  case missing =>
    intro other otherContext found
    obtain rfl := missed.awaits.single other seq otherContext context found missed.pending
    obtain rfl := Option.some.inj (found.symm.trans missed.pending)
    exact missed.missing

theorem Awaiting.recovers_counted_iff (awaiting : before.Awaiting seq context)
    {synced : Except String Bool} (ended : RecoveryOp.Synced seq context synced after lookedUp) :
    Recovers before after (RecoveryOp.counted synced) ↔
      (ReceiptApplied before after seq → seq ∈ lookedUp.receipts.keys) := by
  -- A receipt that comes after the last look is not counted.
  have late (applied : after.Applied seq) (unseen : seq ∉ lookedUp.receipts.keys)
      (uncounted : RecoveryOp.counted synced ≠ .ok 1) :
      Recovers before after (RecoveryOp.counted synced) ↔
        (ReceiptApplied before after seq → seq ∈ lookedUp.receipts.keys) := by
    have receipt_applied := awaiting.receiptApplied applied
    refine iff_of_false (fun recovers => uncounted ?_) fun sees => unseen (sees receipt_applied)
    rw [recovers.returned_eq, awaiting.countP_eq, if_pos receipt_applied]
  rcases synced with message | _ | _
  · exact late ended.1 ended.2 nofun
  · obtain ⟨missed | applied, unseen⟩ := ended
    · exact iff_of_true (awaiting.recovers_of_missed missed) fun applied =>
        absurd applied.2 missed.unreceived
    · exact late applied unseen (by decide)
  · exact iff_of_true (awaiting.recovers_of_applied ended.1) fun _ => ended.2

end LocalWalletDB

namespace RecoveryOp

variable [Crypto H] [DecidableEq H]

theorem ensures_syncListed_nil :
    Ensures (Holds fun wallet _ => ∀ seq, wallet.getPendingBundle seq = none)
      (syncListed [] 0 : Handler (RecoveryOp H) (Except String ℕ)) fun returned =>
        Holds fun wallet _ => returned = .ok 0 ∧ ∀ seq, wallet.getPendingBundle seq = none := by
  refine Handler.ensures_pure (fun _ none_pending => ⟨rfl, none_pending⟩) (Survives.stable ?_)
  rintro call handles wallet lookedUp ⟨returned_eq, none_pending⟩
  exact ⟨returned_eq, (LocalWalletDB.handled_of_none_pending none_pending handles).1⟩

/-- A recovery among others raises where no peer answers its last request, and nowhere else; and it
recovers the receipts exactly if all that are applied meanwhile have come when the host looks for
the last time. -/
theorem recovers_iff {address : Address} {genesisBlockHash : H} {calls : List (WalletCall H)}
    (host_calls : Along LocalWalletDB.perform LocalWalletDB.HostCalls
      (.new address genesisBlockHash) calls)
    {host after : RecoveryHost H}
    (reached : host.wallet = (LocalWalletDB.new address genesisBlockHash).run calls)
    {input : HostInput H} {turns : List (Turn (RecoveryOp H) (HostInput H))}
    {result : Except String (Except String ℕ)}
    (ran : syncPendingReceipts.run.run exec (.own input :: turns) host = some (result, after))
    (meanwhile : ∀ performance, .other performance ∈ turns → Meanwhile performance) :
    (∀ message, result = .error message → Unanswered after) ∧
      ∀ returned, result = .ok returned →
        (Recovers host.wallet after.wallet returned ↔
          ∀ seq ∈ host.wallet.pendingBundles.keys,
            ReceiptApplied host.wallet after.wallet seq → seq ∈ after.lookedUp.receipts.keys) := by
  have awaits : host.wallet.AwaitsReceipts := by
    rw [reached]
    exact host_calls.invariant (fun _ _ awaits host_calls => awaits.perform host_calls)
      (LocalWalletDB.awaitsReceipts_new address genesisBlockHash)
  have synced : (syncListed (host.wallet.pendingBundles.keys.insertionSort (· ≤ ·)) 0).run.run exec
      turns host = some (result, after) := ran
  by_cases pending : ∃ seq context, host.wallet.getPendingBundle seq = some context
  · obtain ⟨seq, context, found⟩ := pending
    have awaiting : host.wallet.Awaiting seq context := ⟨awaits, found⟩
    have sorted : [seq].insertionSort (· ≤ ·) = [seq] := rfl
    rw [awaiting.keys_eq, sorted] at synced
    have ended := ensures_syncListed turns host result after (.inl awaiting) synced
      (fun _ _ => trivial) meanwhile
    cases result with
    | error message => exact ⟨fun _ _ => ended, nofun⟩
    | ok returned =>
        obtain ⟨synced, rfl, ended⟩ := ended
        refine ⟨nofun, fun returned returned_eq => ?_⟩
        obtain rfl := Except.ok.inj returned_eq
        rw [awaiting.keys_eq, List.forall_mem_singleton]
        exact awaiting.recovers_counted_iff ended
  · have none_pending : ∀ seq, host.wallet.getPendingBundle seq = none := by
      intro seq
      refine Option.eq_none_iff_forall_ne_some.mpr fun context found => ?_
      exact pending ⟨seq, context, found⟩
    have keys_eq := LocalWalletDB.keys_of_none_pending none_pending
    rw [keys_eq, List.insertionSort_nil] at synced
    have ended := ensures_syncListed_nil turns host result after none_pending synced
      (fun _ _ => trivial) meanwhile
    cases result with
    | error message => exact ⟨fun _ _ => ended, nofun⟩
    | ok returned =>
        obtain ⟨rfl, none_after⟩ := ended
        refine ⟨nofun, fun returned returned_eq => ?_⟩
        obtain rfl := Except.ok.inj returned_eq
        refine iff_of_true ⟨?_, fun seq context => ?_, fun seq context found => ?_⟩ ?_
        · rw [keys_eq, List.countP_nil]
        · rw [none_pending, none_after]
          simp
        · rw [none_after] at found
          cases found
        · rw [keys_eq]
          nofun

section Samples

open SymbolicDigest LocalWalletDB

/-- Alice's host, which waits for the receipt of her bundle. -/
def waitingHost : RecoveryHost SymbolicDigest :=
  ⟨SyncRun.hostHolding ∅ none, waitingWallet, false, waitingWallet⟩

theorem hostCalls_bundleCalls : Along LocalWalletDB.perform HostCalls
    (LocalWalletDB.new alice (filled 0)) bundleCalls :=
  ⟨trivial, ⟨rfl, freshIds_fundedWallet⟩, trivial, trivial⟩

/-- Alice's wallet once the receipt has come. -/
def receivedWallet : LocalWalletDB SymbolicDigest :=
  waitingWallet.perform (.onReceiptConfirmed partialUnit.receipt)

theorem applied_receivedWallet : receivedWallet.Applied 1 := by
  have awaits : waitingWallet.AwaitsReceipts :=
    hostCalls_bundleCalls.invariant (fun _ _ awaits host_calls => awaits.perform host_calls)
      (awaitsReceipts_new alice (filled 0))
  rw [receivedWallet, perform_waitingWallet]
  exact ⟨awaits.single.get?_erase waitingWallet_checked.pending,
    (OrderedDict.mem_keys_set _ _ _ _).mpr (.inl rfl)⟩

/-- The peer does not answer. -/
def refused : HostInput SymbolicDigest := ⟨.error "connection refused", ""⟩

/-- The receipt arrives. -/
def receiptComes : Turn (RecoveryOp SymbolicDigest) (HostInput SymbolicDigest) :=
  .other ⟨.inr (.handle (.onReceiptConfirmed partialUnit.receipt)), refused⟩

theorem meanwhile_of_receiptComes {performance : Performance (RecoveryOp SymbolicDigest)
    (HostInput SymbolicDigest)} (same : .other performance = receiptComes) :
    Meanwhile performance := by
  cases same
  exact trivial

theorem run_latestReceiptForSeq {host : RecoveryHost SymbolicDigest} {seq : ℕ}
    (applied : host.wallet.Applied seq) (input : HostInput SymbolicDigest) :
    (Handler.perform (.inr (.latestReceiptForSeq seq)) :
        Handler (RecoveryOp SymbolicDigest) Bool).run.run exec [.own input] host =
      some (.ok true, { host with lookedUp := host.wallet }) := by
  change some (Except.ok (decide (seq ∈ host.wallet.receipts.keys)),
    { host with lookedUp := host.wallet }) = _
  rw [decide_eq_true applied.received]

theorem run_markReceiptMissing {host : RecoveryHost SymbolicDigest} {seq : ℕ}
    (applied : host.wallet.Applied seq) (input : HostInput SymbolicDigest) :
    (Handler.perform (.inr (.markReceiptMissing seq)) : Handler (RecoveryOp SymbolicDigest)
        (Except String (PendingBundleContext SymbolicDigest))).run.run exec [.own input] host =
      some (.ok (.error "no pending bundle matches seq"), host) := by
  change some (Except.ok (host.wallet.execute (host.wallet.markReceiptMissing seq)).1,
    { host with wallet := (host.wallet.execute (host.wallet.markReceiptMissing seq)).2 }) = _
  rw [applied.execute_markReceiptMissing]

theorem refreshes_waitingHost :
    (Handler.lift embed HostOp.refreshBestPeerIfPreferredStale).run.run exec
        (List.replicate 3 (.own refused)) waitingHost = some (.ok false, waitingHost) := rfl

theorem requests_waitingHost :
    (requestReceiptForSeq 1).run.run exec (List.replicate 4 (.own refused)) waitingHost =
      some (.ok false, waitingHost) := rfl

/-- Alice's host when the receipt has come late. -/
def lateHost : RecoveryHost SymbolicDigest :=
  ⟨waitingHost.network, receivedWallet, true, waitingWallet⟩

theorem sends_waitingHost :
    (Handler.lift embed (HostOp.sendToConsensus (.receipt 1))).run.run exec
        [.own refused, receiptComes, .own SyncRun.answered, .own refused] waitingHost =
      some (.ok ⟨none, some "ok"⟩, lateHost) := rfl

theorem gives_up_lateHost : (retryReceipt 1 ⟨none, some "ok"⟩).run.run exec [] lateHost =
    some (.ok false, lateHost) := by
  rw [retryReceipt, if_neg (by decide)]
  rfl

theorem marks_lateHost : (do
      let marked ← Handler.perform (.inr (.markReceiptMissing 1))
      pure (marked.map fun _ => false) :
        Handler (RecoveryOp SymbolicDigest) (Except String Bool)).run.run exec
          ([.own refused] ++ []) lateHost =
      some (.ok (.error "no pending bundle matches seq"), lateHost) :=
  Handler.run_bind_append (run_markReceiptMissing applied_receivedWallet refused)

/-- The turns of a recovery in which the receipt comes with the answer to the second request. -/
def lateTurns : List (Turn (RecoveryOp SymbolicDigest) (HostInput SymbolicDigest)) :=
  List.replicate 3 (.own refused) ++ (List.replicate 4 (.own refused) ++
    ([.own refused, receiptComes, .own SyncRun.answered, .own refused] ++
      ([] ++ ([.own refused] ++ []))))

theorem syncs_lateTurns : (syncPendingReceipt 1).run.run exec lateTurns waitingHost =
    some (.ok (.error "no pending bundle matches seq"), lateHost) := by
  apply (Handler.run_bind_append refreshes_waitingHost).trans
  apply (Handler.run_bind_append requests_waitingHost).trans
  apply (Handler.run_bind_append sends_waitingHost).trans
  apply (Handler.run_bind_append gives_up_lateHost).trans
  exact marks_lateHost

theorem lists_waitingHost (turns : List (Turn (RecoveryOp SymbolicDigest)
    (HostInput SymbolicDigest))) :
    syncPendingReceipts.run.run exec (.own refused :: turns) waitingHost =
      (syncListed [1] 0).run.run exec turns waitingHost := rfl

/-- The peer has answered, but the host raises: it has not looked for the receipt again. -/
theorem not_recovers_lateTurns :
    Along LocalWalletDB.perform HostCalls (LocalWalletDB.new alice (filled 0)) bundleCalls ∧
      waitingHost.wallet = (LocalWalletDB.new alice (filled 0)).run bundleCalls ∧
      syncPendingReceipts.run.run exec (.own refused :: lateTurns) waitingHost =
        some (.ok (.error "no pending bundle matches seq"), lateHost) ∧
      (∀ performance, .other performance ∈ lateTurns → Meanwhile performance) ∧
      lateHost.answered = true ∧
      ¬ Recovers waitingHost.wallet lateHost.wallet (.error "no pending bundle matches seq") := by
  refine ⟨hostCalls_bundleCalls, rfl, ?_, ?_, rfl, fun recovers => ?_⟩
  · rw [lists_waitingHost, ← List.append_nil lateTurns]
    exact Handler.run_bind_append syncs_lateTurns
  · intro performance member
    have same : .other performance = receiptComes := by
      simpa [lateTurns, List.replicate, receiptComes] using member
    exact meanwhile_of_receiptComes same
  · cases recovers.returned_eq

/-! ### An early receipt -/

/-- Alice's host when the receipt has come early. -/
def earlyHost : RecoveryHost SymbolicDigest :=
  ⟨waitingHost.network, receivedWallet, true, receivedWallet⟩

/-- The receipt comes with the answer to the first request. -/
def earlyTurns : List (Turn (RecoveryOp SymbolicDigest) (HostInput SymbolicDigest)) :=
  List.replicate 3 (.own refused) ++
    (([.own refused] ++ ([.own refused] ++ ([receiptComes, .own SyncRun.answered] ++
      ([.own refused] ++ ([.own refused] ++ []))))) ++ [])

theorem requests_earlyTurns : (requestReceiptForSeq 1).run.run exec
    ([.own refused] ++ ([.own refused] ++ ([receiptComes, .own SyncRun.answered] ++
      ([.own refused] ++ ([.own refused] ++ []))))) waitingHost = some (.ok true, earlyHost) := by
  have looks : (Handler.perform (.inr (.latestReceiptForSeq 1)) :
      Handler (RecoveryOp SymbolicDigest) Bool).run.run exec [.own refused] waitingHost =
        some (.ok false, waitingHost) := rfl
  have lists : (Handler.perform (.inl .consensusPeerIds) :
      Handler (RecoveryOp SymbolicDigest) (List String)).run.run exec [.own refused] waitingHost =
        some (.ok ["consensus-0"], waitingHost) := rfl
  have sends : (Handler.perform (.inl (.send "consensus-0" (.receipt 1))) :
      Handler (RecoveryOp SymbolicDigest)
        (Except String (PeerResponse SymbolicDigest))).run.run exec
          [receiptComes, .own SyncRun.answered] waitingHost =
        some (.ok (.ok ⟨none, some "ok"⟩), lateHost) := rfl
  have promotes : (Handler.perform (.inl (.promoteConsensusPeer "consensus-0")) :
      Handler (RecoveryOp SymbolicDigest) Unit).run.run exec [.own refused] lateHost =
        some (.ok (), lateHost) := rfl
  apply (Handler.run_bind_append looks).trans
  apply (Handler.run_bind_append lists).trans
  apply (Handler.run_bind_append sends).trans
  apply (Handler.run_bind_append promotes).trans
  exact Handler.run_bind_append (run_latestReceiptForSeq applied_receivedWallet refused)

theorem syncs_earlyTurns : (syncPendingReceipt 1).run.run exec earlyTurns waitingHost =
    some (.ok (.ok true), earlyHost) := by
  apply (Handler.run_bind_append refreshes_waitingHost).trans
  exact Handler.run_bind_append requests_earlyTurns

/-- The host counts a receipt that comes early. -/
theorem recovers_earlyTurns : Recovers waitingHost.wallet earlyHost.wallet (.ok 1) := by
  have ran : syncPendingReceipts.run.run exec (.own refused :: earlyTurns) waitingHost =
      some (.ok (.ok 1), earlyHost) := by
    rw [lists_waitingHost, ← List.append_nil earlyTurns]
    exact Handler.run_bind_append syncs_earlyTurns
  have meanwhile : ∀ performance, .other performance ∈ earlyTurns → Meanwhile performance := by
    intro performance member
    have same : .other performance = receiptComes := by
      simpa [earlyTurns, List.replicate, receiptComes] using member
    exact meanwhile_of_receiptComes same
  exact ((recovers_iff hostCalls_bundleCalls rfl ran meanwhile).2 _ rfl).mpr
    fun seq _ applied => applied.2

end Samples

end RecoveryOp

end EZChain
