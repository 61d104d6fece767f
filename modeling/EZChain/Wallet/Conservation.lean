import EZChain.Chain.PeerBlock
import EZChain.Library.Runs
import EZChain.Wallet.Calls

/-!
# Value conservation

The calls that build, confirm, miss and roll back bundles move records between statuses and split
them, and lose no atom by it.  A pending bundle reserves its records; the receipt archives the
outgoing ones among them, and a rollback returns them all.
-/

namespace EZChain

open Checks Cover Runs

namespace LocalWalletDB

variable {H : Type}

/-! ## Atoms held by a wallet -/

/-- The atoms of all records. -/
def allAtoms (db : LocalWalletDB H) : Finset ℕ := cover recordAtoms db.records

/-- The atoms of the records of a kind. -/
def heldAtoms (db : LocalWalletDB H) (kind : LocalValueRecord H → Prop) [DecidablePred kind] :
    Finset ℕ :=
  cover recordAtoms (db.records.filter fun record => kind record)

/-- The atoms of the records that have not been spent. -/
def liveAtoms (db : LocalWalletDB H) : Finset ℕ := db.heldAtoms Live

/-- The atoms of the archived records. -/
def archivedAtoms (db : LocalWalletDB H) : Finset ℕ :=
  db.heldAtoms fun record => record.localStatus = .archived

/-- The atoms that a bundle may use. -/
def spendableAtoms (db : LocalWalletDB H) : Finset ℕ :=
  db.heldAtoms fun record => record.localStatus = .verifiedSpendable

/-- The atoms that a pending bundle reserves. -/
def reservedAtoms (db : LocalWalletDB H) (context : PendingBundleContext H) : Finset ℕ :=
  db.heldAtoms fun record => record.recordId ∈ context.pendingRecordIds

/-- The atoms that a pending bundle sends. -/
def outgoingAtoms (context : PendingBundleContext H) : Finset ℕ :=
  cover ValueRange.atoms context.outgoingValues

/-- No two live records share an atom. -/
def LiveApart (db : LocalWalletDB H) : Prop :=
  Apart recordAtoms (db.records.filter fun record => Live record)

/-- A receipt archives the outgoing atoms and returns the other reserved ones. -/
structure ArchivesOutgoing (db next : LocalWalletDB H) (context : PendingBundleContext H) :
    Prop where
  reserved : outgoingAtoms context ⊆ db.reservedAtoms context
  archived : next.archivedAtoms = db.archivedAtoms ∪ outgoingAtoms context
  live : next.liveAtoms = db.liveAtoms \ outgoingAtoms context
  returned : db.reservedAtoms context \ outgoingAtoms context ⊆ next.spendableAtoms

/-- A rollback makes the reserved atoms spendable and leaves the other records alone. -/
structure ReleasesReserved (db next : LocalWalletDB H) (context : PendingBundleContext H) :
    Prop where
  unspendable : Disjoint db.spendableAtoms (db.reservedAtoms context)
  released : next.spendableAtoms = db.spendableAtoms ∪ db.reservedAtoms context
  others : ∀ record ∈ db.records, record.recordId ∉ context.pendingRecordIds →
    record ∈ next.records

theorem mem_heldAtoms {db : LocalWalletDB H} {kind : LocalValueRecord H → Prop}
    [DecidablePred kind] {atom : ℕ} :
    atom ∈ db.heldAtoms kind ↔ ∃ record ∈ db.records, kind record ∧ atom ∈ recordAtoms record := by
  simp [heldAtoms, and_assoc]

/-! ## Reservations -/

/-- The records that a pending bundle reserves wait for its receipt, and the outgoing ones among
them hold the outgoing atoms. -/
structure Reserves (db : LocalWalletDB H) (context : PendingBundleContext H) : Prop where
  outgoing_subset : context.outgoingRecordIds ⊆ context.pendingRecordIds
  waiting : ∀ record ∈ db.records, record.recordId ∈ context.pendingRecordIds →
    record.localStatus = .pendingBundle ∨ record.localStatus = .receiptMissing
  outgoing : db.heldAtoms (fun record => record.recordId ∈ context.outgoingRecordIds) =
    outgoingAtoms context

theorem eq_of_mem_atoms {records : List (LocalValueRecord H)}
    (apart : Apart (cellOf Live recordAtoms) records) {left right : LocalValueRecord H}
    (left_mem : left ∈ records) (right_mem : right ∈ records) (left_live : Live left)
    (right_live : Live right) {atom : ℕ} (inside : atom ∈ recordAtoms left)
    (other_inside : atom ∈ recordAtoms right) : left = right := by
  have left_cell : atom ∈ cellOf Live recordAtoms left := by rwa [cellOf, if_pos left_live]
  have right_cell : atom ∈ cellOf Live recordAtoms right := by rwa [cellOf, if_pos right_live]
  exact apart.eq_of_mem left_mem right_mem left_cell right_cell

/-- What the calls of a run keep. -/
structure Conserves (initial db : LocalWalletDB H) : Prop where
  atoms : db.allAtoms = initial.allAtoms
  apart : Apart (cellOf Live recordAtoms) db.records
  single : db.OnePending
  reserves : ∀ seq context, db.getPendingBundle seq = some context → db.Reserves context

theorem Reserves.live {db : LocalWalletDB H} {context : PendingBundleContext H}
    (reserves : db.Reserves context) {record : LocalValueRecord H} (member : record ∈ db.records)
    (reserved : record.recordId ∈ context.pendingRecordIds) : Live record := by
  rw [Live]
  rcases reserves.waiting record member reserved with status_eq | status_eq <;> simp [status_eq]

/-! ## Changes of status -/

section Change

variable {db : LocalWalletDB H} {change : LocalValueRecord H → LocalValueRecord H}
  {recordId_eq : ∀ record, (change record).recordId = record.recordId}

theorem mem_mapRecords {record : LocalValueRecord H} :
    record ∈ (db.mapRecords change recordId_eq).records ↔
      ∃ source ∈ db.records, change source = record := by
  rw [mapRecords, mem_records_withRecords, List.mem_map]

theorem mem_heldAtoms_mapRecords (value_eq : ∀ record, (change record).value = record.value)
    {kind : LocalValueRecord H → Prop} [DecidablePred kind] {atom : ℕ} :
    atom ∈ (db.mapRecords change recordId_eq).heldAtoms kind ↔
      ∃ record ∈ db.records, kind (change record) ∧ atom ∈ recordAtoms record := by
  simp only [mem_heldAtoms, mem_mapRecords, recordAtoms]
  constructor
  · rintro ⟨_, ⟨source, member, rfl⟩, of_kind, inside⟩
    rw [value_eq] at inside
    exact ⟨source, member, of_kind, inside⟩
  · rintro ⟨source, member, of_kind, inside⟩
    refine ⟨_, ⟨source, member, rfl⟩, of_kind, ?_⟩
    rwa [value_eq]

theorem allAtoms_mapRecords (value_eq : ∀ record, (change record).value = record.value) :
    (db.mapRecords change recordId_eq).allAtoms = db.allAtoms := by
  rw [allAtoms, mapRecords, cover_perm (perm_records_withRecords _ _), cover_map]
  simp only [recordAtoms, value_eq]
  rfl

theorem apart_mapRecords (value_eq : ∀ record, (change record).value = record.value)
    (live : ∀ record ∈ db.records, Live (change record) → Live record)
    (apart : Apart (cellOf Live recordAtoms) db.records) :
    Apart (cellOf Live recordAtoms) (db.mapRecords change recordId_eq).records := by
  rw [mapRecords, apart_perm (perm_records_withRecords _ _), apart_map]
  refine apart.mono fun record member => ?_
  simp only [cellOf, recordAtoms, value_eq]
  split_ifs with changed unchanged
  · exact Finset.Subset.refl _
  · exact absurd (live record member changed) unchanged
  · exact Finset.empty_subset _
  · exact Finset.empty_subset _

end Change

/-! ## One call -/

section Calls

variable [Crypto H] [DecidableEq H] {initial db : LocalWalletDB H}

/-- A new pending bundle reserves its records. -/
theorem BundleBuilt.reserves {call : BundleCall} {context : PendingBundleContext H}
    {marked : List (LocalValueRecord H × Option Bool)} (built : db.BundleBuilt call context marked)
    (nodup : ((marked.map Prod.fst).map LocalValueRecord.recordId).Nodup) :
    (db.afterBundle context (marked.map Prod.fst) nodup).Reserves context := by
  constructor
  · intro recordId listed
    obtain ⟨record, marked_mem, id_eq⟩ := built.mem_outgoingRecordIds_iff.mp listed
    exact built.mem_pendingRecordIds_iff.mpr ⟨record, true, marked_mem, id_eq⟩
  · intro record member reserved
    obtain ⟨mark, marked_mem⟩ := mem_records_afterBundle.mp member
    obtain ⟨other, outgoing, other_mem, id_eq⟩ := built.mem_pendingRecordIds_iff.mp reserved
    obtain ⟨rfl, rfl⟩ := Prod.mk.inj (marked_inj nodup other_mem marked_mem id_eq)
    exact .inl (built.status_reserved marked_mem)
  · ext atom
    simp only [mem_heldAtoms, outgoingAtoms, mem_cover, mem_records_afterBundle]
    constructor
    · rintro ⟨record, ⟨mark, marked_mem⟩, listed, inside⟩
      obtain ⟨other, other_mem, id_eq⟩ := built.mem_outgoingRecordIds_iff.mp listed
      obtain ⟨rfl, rfl⟩ := Prod.mk.inj (marked_inj nodup other_mem marked_mem id_eq)
      exact ⟨other.value, (built.split.outgoing other.value).mp ⟨other, marked_mem, rfl⟩, inside⟩
    · rintro ⟨value, target_mem, inside⟩
      obtain ⟨record, marked_mem, rfl⟩ := (built.split.outgoing value).mpr target_mem
      exact ⟨record, ⟨some true, marked_mem⟩,
        built.mem_outgoingRecordIds_iff.mpr ⟨record, marked_mem, rfl⟩, inside⟩

theorem Conserves.afterBundle (conserves : Conserves initial db) {call : BundleCall}
    {context : PendingBundleContext H} {marked : List (LocalValueRecord H × Option Bool)}
    (built : db.BundleBuilt call context marked)
    (nodup : ((marked.map Prod.fst).map LocalValueRecord.recordId).Nodup) :
    Conserves initial (db.afterBundle context (marked.map Prod.fst) nodup) := by
  constructor
  · rw [← conserves.atoms, allAtoms, LocalWalletDB.afterBundle,
      cover_perm (perm_records_withRecords _ nodup), cover_map]
    exact built.split.covered
  · rw [LocalWalletDB.afterBundle, apart_perm (perm_records_withRecords _ nodup), apart_map]
    exact built.split.apart conserves.apart
  · exact onePending_withPendingBundle built.free context
  · intro seq other found
    obtain ⟨_, rfl⟩ := (getPendingBundle_withPendingBundle built.free).mp found
    exact built.reserves nodup

omit [Crypto H] [DecidableEq H] in
/-- A change of records that keeps their values and revives none conserves the atoms, when no
bundle stays pending. -/
theorem Conserves.mapRecords (conserves : Conserves initial db) {next : LocalWalletDB H}
    {change : LocalValueRecord H → LocalValueRecord H}
    {recordId_eq : ∀ record, (change record).recordId = record.recordId}
    (records_eq : next.records = db.records)
    (value_eq : ∀ record, (change record).value = record.value)
    (live : ∀ record ∈ db.records, Live (change record) → Live record)
    (none_pending : ∀ seq, next.getPendingBundle seq = none) :
    Conserves initial (next.mapRecords change recordId_eq) where
  atoms := by
    rw [allAtoms_mapRecords value_eq, ← conserves.atoms, allAtoms, records_eq]
    rfl
  apart := apart_mapRecords value_eq (records_eq ▸ live) (records_eq ▸ conserves.apart)
  single := onePending_of_none none_pending
  reserves := fun seq _ found => by
    have absent : (next.mapRecords change recordId_eq).getPendingBundle seq = none :=
      none_pending seq
    rw [absent] at found
    cases found

theorem Conserves.afterReceipt (conserves : Conserves initial db) {receipt : Receipt H}
    {context : PendingBundleContext H} (checked : db.ReceiptChecked receipt context) :
    Conserves initial (db.afterReceipt receipt context) := by
  refine conserves.mapRecords rfl (value_confirmRecord _ _ _) ?_
    (conserves.single.get?_erase checked.pending)
  intro record _ live archived
  rw [confirmRecord, if_pos archived] at live
  exact live archived

omit [Crypto H] [DecidableEq H] in
theorem Conserves.afterRollback (conserves : Conserves initial db) {seq : ℕ}
    {context : PendingBundleContext H} (pending : db.getPendingBundle seq = some context) :
    Conserves initial (db.afterRollback context seq) := by
  refine conserves.mapRecords rfl (value_releaseRecord _) ?_ (conserves.single.get?_erase pending)
  intro record member live
  by_cases reserved : record.recordId ∈ context.pendingRecordIds
  · exact (conserves.reserves seq context pending).live member reserved
  · rwa [releaseRecord, if_neg reserved] at live

omit [Crypto H] [DecidableEq H] in
theorem Conserves.afterMissing (conserves : Conserves initial db) {seq : ℕ}
    {context : PendingBundleContext H} (pending : db.getPendingBundle seq = some context) :
    Conserves initial (db.mapRecords (missRecord context.pendingRecordIds)
      (recordId_missRecord _)) where
  atoms := by rw [allAtoms_mapRecords (value_missRecord _), conserves.atoms]
  apart := by
    refine apart_mapRecords (value_missRecord _) (fun record member live => ?_) conserves.apart
    by_cases missed : record.recordId ∈ context.pendingRecordIds ∧
        record.localStatus = .pendingBundle
    · exact (conserves.reserves seq context pending).live member missed.1
    · rwa [missRecord, if_neg missed] at live
  single := conserves.single
  reserves := by
    intro other otherContext found
    have reserves := conserves.reserves other otherContext found
    refine ⟨reserves.outgoing_subset, ?_, ?_⟩
    · intro record member reserved
      obtain ⟨source, source_mem, rfl⟩ := mem_mapRecords.mp member
      rw [recordId_missRecord] at reserved
      rw [missRecord]
      split_ifs with missed
      · exact .inr rfl
      · exact reserves.waiting source source_mem reserved
    · rw [← reserves.outgoing]
      ext atom
      rw [mem_heldAtoms_mapRecords (value_missRecord _), mem_heldAtoms]
      simp only [recordId_missRecord]

/-- The condition on one call of a run: it brings in no value, and the ids it generates are
fresh. -/
def KeepsValue (db : LocalWalletDB H) : WalletCall H → Prop
  | .addGenesisValue _ _ | .receiveTransfer _ _ _ => False
  | .buildBundle call => db.FreshIds call.recordIds
  | .onReceiptConfirmed _ | .markReceiptMissing _ | .rollbackPendingBundle _
  | .observeCanonicalHeader _ => True

/-- One call conserves the atoms, whether it raises or not. -/
theorem Conserves.perform (conserves : Conserves initial db) {call : WalletCall H}
    (keeps : db.KeepsValue call) : Conserves initial (db.perform call) := by
  cases call with
  | addGenesisValue value recordId => exact keeps.elim
  | receiveTransfer package context recordId => exact keeps.elim
  | buildBundle call =>
      obtain unchanged | ⟨context, marked, nodup, built, next_eq⟩ := perform_buildBundle call keeps
      · rwa [unchanged]
      · rw [next_eq]
        exact conserves.afterBundle built nodup
  | onReceiptConfirmed receipt =>
      obtain unchanged | ⟨context, checked, _, next_eq⟩ :=
        db.perform_onReceiptConfirmed receipt
      · rwa [unchanged]
      · rw [next_eq]
        exact conserves.afterReceipt checked
  | markReceiptMissing seq =>
      cases found : db.getPendingBundle seq with
      | none => rwa [perform_markReceiptMissing_of_none found]
      | some context =>
          rw [perform_markReceiptMissing found]
          exact conserves.afterMissing found
  | rollbackPendingBundle seq =>
      cases found : db.getPendingBundle seq with
      | none => rwa [perform_rollbackPendingBundle_of_none found]
      | some context =>
          rw [(perform_rollbackPendingBundle found).1]
          exact conserves.afterRollback found
  | observeCanonicalHeader header =>
      refine ⟨conserves.atoms, conserves.apart, conserves.single, fun seq context found => ?_⟩
      obtain ⟨outgoing_subset, waiting, outgoing⟩ := conserves.reserves seq context found
      exact ⟨outgoing_subset, waiting, outgoing⟩

/-! ## What receipts and rollbacks do -/

omit [Crypto H] [DecidableEq H] in
theorem archived_confirmRecord_iff (unit : ConfirmedBundleUnit H)
    {pendingRecordIds outgoingRecordIds : List String}
    (subset : outgoingRecordIds ⊆ pendingRecordIds) (record : LocalValueRecord H) :
    (confirmRecord unit pendingRecordIds outgoingRecordIds record).localStatus = .archived ↔
      record.localStatus = .archived ∨ record.recordId ∈ outgoingRecordIds := by
  rw [confirmRecord]
  by_cases reserved : record.recordId ∈ pendingRecordIds
  · split_ifs with archived outgoing <;> simp_all [appendToRecord]
  · have kept : record.recordId ∉ outgoingRecordIds := fun listed => reserved (subset listed)
    split_ifs <;> simp_all [appendToRecord]

theorem Conserves.archivesOutgoing (conserves : Conserves initial db) {receipt : Receipt H}
    {context : PendingBundleContext H} (pending : db.getPendingBundle receipt.seq = some context) :
    ArchivesOutgoing db (db.afterReceipt receipt context) context := by
  have reserves := conserves.reserves _ _ pending
  have archived_iff := archived_confirmRecord_iff (confirmedUnit receipt context)
    reserves.outgoing_subset
  have mem_outgoing : ∀ {atom}, atom ∈ outgoingAtoms context ↔
      ∃ record ∈ db.records, record.recordId ∈ context.outgoingRecordIds ∧
        atom ∈ recordAtoms record := by
    intro atom
    rw [← reserves.outgoing, mem_heldAtoms]
  have mem_next : ∀ {kind : LocalValueRecord H → Prop} [DecidablePred kind] {atom},
      atom ∈ (db.afterReceipt receipt context).heldAtoms kind ↔
        ∃ record ∈ db.records, kind (confirmRecord (confirmedUnit receipt context)
          context.pendingRecordIds context.outgoingRecordIds record) ∧
            atom ∈ recordAtoms record :=
    mem_heldAtoms_mapRecords (value_confirmRecord _ _ _)
  constructor
  case reserved =>
    intro atom inside
    obtain ⟨record, member, listed, inside⟩ := mem_outgoing.mp inside
    exact mem_heldAtoms.mpr ⟨record, member, reserves.outgoing_subset listed, inside⟩
  case archived =>
    ext atom
    rw [archivedAtoms, mem_next, Finset.mem_union, mem_outgoing, archivedAtoms, mem_heldAtoms]
    simp only [archived_iff, or_and_right, and_or_left, exists_or]
  case live =>
    ext atom
    rw [liveAtoms, mem_next, Finset.mem_sdiff, mem_outgoing, liveAtoms, mem_heldAtoms]
    constructor
    · rintro ⟨record, member, live, inside⟩
      rw [Live, ne_eq, archived_iff, not_or] at live
      refine ⟨⟨record, member, live.1, inside⟩, ?_⟩
      -- The record that holds the atom among the outgoing ones would be this one.
      rintro ⟨other, other_mem, listed, other_inside⟩
      have other_live := reserves.live other_mem (reserves.outgoing_subset listed)
      have other_eq := eq_of_mem_atoms conserves.apart member other_mem live.1 other_live inside
        other_inside
      exact live.2 (other_eq ▸ listed)
    · rintro ⟨⟨record, member, live, inside⟩, kept⟩
      refine ⟨record, member, ?_, inside⟩
      rw [Live, ne_eq, archived_iff, not_or]
      exact ⟨live, fun listed => kept ⟨record, member, listed, inside⟩⟩
  case returned =>
    intro atom inside
    obtain ⟨inside, kept⟩ := Finset.mem_sdiff.mp inside
    obtain ⟨record, member, reserved, inside⟩ := mem_heldAtoms.mp inside
    have unlisted : record.recordId ∉ context.outgoingRecordIds :=
      fun listed => kept (mem_outgoing.mpr ⟨record, member, listed, inside⟩)
    refine mem_next.mpr ⟨record, member, ?_, inside⟩
    rw [confirmRecord, if_neg (reserves.live member reserved), if_pos reserved,
      if_neg unlisted]
    rfl

omit [Crypto H] [DecidableEq H] in
theorem spendable_releaseRecord_iff (pendingRecordIds : List String)
    (record : LocalValueRecord H) :
    (releaseRecord pendingRecordIds record).localStatus = .verifiedSpendable ↔
      record.localStatus = .verifiedSpendable ∨ record.recordId ∈ pendingRecordIds := by
  rw [releaseRecord]
  split_ifs with reserved <;> simp [reserved]

omit [Crypto H] [DecidableEq H] in
theorem Conserves.releasesReserved (conserves : Conserves initial db) {seq : ℕ}
    {context : PendingBundleContext H} (pending : db.getPendingBundle seq = some context) :
    ReleasesReserved db (db.afterRollback context seq) context := by
  have reserves := conserves.reserves _ _ pending
  constructor
  case unspendable =>
    rw [Finset.disjoint_left]
    intro atom spendable reserved
    obtain ⟨record, member, status_eq, inside⟩ := mem_heldAtoms.mp spendable
    obtain ⟨other, other_mem, listed, other_inside⟩ := mem_heldAtoms.mp reserved
    have live : Live record := by simp [Live, status_eq]
    have other_eq := eq_of_mem_atoms conserves.apart member other_mem live
      (reserves.live other_mem listed) inside other_inside
    subst other_eq
    rcases reserves.waiting record member listed with waiting | waiting <;>
      rw [status_eq] at waiting <;> cases waiting
  case released =>
    ext atom
    rw [spendableAtoms, LocalWalletDB.afterRollback,
      mem_heldAtoms_mapRecords (value_releaseRecord _), Finset.mem_union, spendableAtoms,
      reservedAtoms, mem_heldAtoms, mem_heldAtoms]
    simp only [spendable_releaseRecord_iff, or_and_right, and_or_left, exists_or]
  case others =>
    intro record member unreserved
    exact mem_mapRecords.mpr ⟨record, member, if_neg unreserved⟩

/-! ## Runs -/

omit [Crypto H] [DecidableEq H] in
theorem conserves_self (idle : initial.pendingBundles.keys = []) (apart : initial.LiveApart) :
    Conserves initial initial := by
  have none_pending := getPendingBundle_of_free idle
  constructor
  · rfl
  · exact (apart_filter _ _).mp apart
  · exact onePending_of_none none_pending
  · intro seq _ found
    rw [none_pending] at found
    cases found

/-- Building, confirming, missing and rolling back bundles loses and duplicates no atom, a receipt
archives the outgoing atoms of its bundle, and a rollback releases the reserved ones. -/
theorem value_conserved (initial : LocalWalletDB H) (idle : initial.pendingBundles.keys = [])
    (apart : initial.LiveApart) (calls : List (WalletCall H))
    (keeps : Along LocalWalletDB.perform KeepsValue initial calls) :
    (initial.run calls).allAtoms = initial.allAtoms ∧ (initial.run calls).LiveApart ∧
      (∀ receipt unit, ((initial.run calls).execute
          ((initial.run calls).onReceiptConfirmed receipt)).1 = .ok unit →
        ∃ context, (initial.run calls).getPendingBundle receipt.seq = some context ∧
          ArchivesOutgoing (initial.run calls)
            ((initial.run calls).perform (.onReceiptConfirmed receipt)) context) ∧
      ∀ seq context, ((initial.run calls).execute
          ((initial.run calls).rollbackPendingBundle seq)).1 = .ok context →
        ReleasesReserved (initial.run calls)
          ((initial.run calls).perform (.rollbackPendingBundle seq)) context := by
  have conserves : Conserves initial (initial.run calls) :=
    keeps.invariant (fun _ _ conserves keeps => conserves.perform keeps)
      (conserves_self idle apart)
  refine ⟨conserves.atoms, (apart_filter _ _).mpr conserves.apart, ?_, ?_⟩
  · intro receipt unit applied
    obtain ⟨context, checked, unused, _⟩ := execute_onReceiptConfirmed_eq_ok.mp applied
    rw [checked.perform_eq unused]
    exact ⟨context, checked.pending, conserves.archivesOutgoing checked.pending⟩
  · intro seq context rolled
    obtain ⟨_, planned, _⟩ := execute_eq_ok.mp rolled
    have pending := (rollbackPendingBundle_eq_ok.mp planned).1
    rw [(perform_rollbackPendingBundle pending).1]
    exact conserves.releasesReserved pending

end Calls

section Examples

open SymbolicDigest

/-- Record ids in unary. -/
def unaryIds (index : ℕ) : String := String.ofList (List.replicate (index + 1) 'r')

theorem unaryIds_injective : Function.Injective unaryIds := by
  intro left right equality
  have length_eq := congrArg List.length (String.ofList_injective equality)
  simpa using length_eq

/-- Alice's wallet with one genesis value. -/
def fundedWallet : LocalWalletDB SymbolicDigest :=
  (LocalWalletDB.new alice (.filled 0)).perform (.addGenesisValue coin "coin")

/-- The middle of the value. -/
abbrev middle : ValueRange := ⟨3, 5, by decide⟩

/-- Alice sends the middle of her value to Bob. -/
def partialCall : BundleCall where
  txList := (transferBundle alice bob middle).txList
  publicKeyPem := [1]
  chainId := 1
  seq := 1
  expiryHeight := 100
  fee := 0
  antiSpamNonce := 0
  createdAt := 0
  sig := [1]
  recordIds := unaryIds

theorem partialCall_seq_pos : 0 < partialCall.seq := Nat.one_pos

theorem freshIds_fundedWallet : fundedWallet.FreshIds unaryIds := by
  refine ⟨unaryIds_injective, fun index member => ?_⟩
  have id_eq : unaryIds index = "coin" := List.mem_singleton.mp member
  have chars_eq := congrArg String.toList id_eq
  rw [unaryIds, String.toList_ofList, List.replicate_succ] at chars_eq
  cases chars_eq

/-- A bundle that waits for its receipt splits the value into three, and its rollback makes all of
them spendable. -/
theorem value_conserved_partialCall :
    (fundedWallet.run [.buildBundle partialCall, .markReceiptMissing 1]).records.length = 3 ∧
      (fundedWallet.run [.buildBundle partialCall, .markReceiptMissing 1]).allAtoms =
        Finset.Icc 0 9 ∧
      ∃ context, ReleasesReserved
        (fundedWallet.run [.buildBundle partialCall, .markReceiptMissing 1])
        ((fundedWallet.run [.buildBundle partialCall, .markReceiptMissing 1]).perform
          (.rollbackPendingBundle 1)) context := by
  obtain ⟨atoms, _, _, releases⟩ := value_conserved fundedWallet rfl (List.pairwise_singleton _ _)
    [.buildBundle partialCall, .markReceiptMissing 1] ⟨freshIds_fundedWallet, trivial, trivial⟩
  refine ⟨by decide, atoms.trans (Finset.union_empty _), _, releases 1 _ rfl⟩

end Examples

end LocalWalletDB

end EZChain
