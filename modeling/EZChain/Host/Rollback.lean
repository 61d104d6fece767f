import EZChain.Host.Payments
import EZChain.Wallet.Conservation

/-!
# Rolled-back payments

A wallet and a chain stay aligned as long as the consensus host admits no request of a bundle that
is rolled back: no such bundle is confirmed, and the wallet's next seq is the one that the chain
expects.
-/

namespace EZChain

open Checks Runs ChainStateV2

variable {H : Type}

namespace PaymentNetwork

section Crypto

variable [Crypto H] [DecidableEq H] {net : PaymentNetwork H}

/-! ## The wallet and the chain stay aligned -/

/-- The account's own entries of a block confirm admitted bundles at their own seqs. -/
def OwnAdmitted (net : PaymentNetwork H) (block : BlockV2 H) : Prop :=
  ∀ entry ∈ block.diffPackage.diffEntries, entry.newLeaf.addr = net.address →
    entry.name ∈ net.admitted ∧ KeepsSeq entry

/-- The bundle is the wallet's pending one. -/
def IsPending (net : PaymentNetwork H) (bundle : BundleName H) : Prop :=
  ∃ seq context, net.wallet.getPendingBundle seq = some context ∧ context.name = bundle

/-- The invariant of all runs without admitted requests of rolled-back bundles. -/
structure Aligned (net : PaymentNetwork H) : Prop where
  wellFormed : net.chain.WellFormed
  single : net.wallet.OnePending
  /-- The pending bundle follows the last receipt. -/
  pendingSeq : ∀ seq context, net.wallet.getPendingBundle seq = some context →
    context.seq = seq ∧ seq = net.wallet.receivedSeq + 1
  /-- The chain has confirmed what the receipts say, and at most the pending bundle above them. -/
  confirmedSeq : net.chain.confirmedSeq net.address = net.wallet.receivedSeq ∨
    net.chain.confirmedSeq net.address = net.wallet.receivedSeq + 1 ∧
      ∃ bundle ∈ net.admitted, net.IsPending bundle
  receipts : ∀ receipt ∈ net.receipts, receipt.seq ≤ net.chain.confirmedSeq net.address
  requests : ∀ submission ∈ net.requests, submission.sidecar.senderAddr = net.address ∧
    (submission.name ∈ net.rolledBack ∨ submission.envelope.seq ≤ net.wallet.receivedSeq ∨
      net.IsPending submission.name)
  /-- An admitted bundle has its receipt or is the pending one. -/
  admitted : ∀ bundle ∈ net.admitted, bundle.1 ≤ net.wallet.receivedSeq ∨ net.IsPending bundle
  apart : ∀ bundle ∈ net.rolledBack, bundle ∉ net.admitted
  pool : ∀ addr submission, net.chain.bundlePool.pendingBySender.get? addr = some submission →
    submission.sidecar.senderAddr = net.address → submission.name ∈ net.admitted
  /-- An admitted pending bundle stays in the pool until it is confirmed. -/
  held : net.chain.confirmedSeq net.address = net.wallet.receivedSeq → ∀ bundle ∈ net.admitted,
    net.IsPending bundle → ∃ submission,
      net.chain.bundlePool.pendingBySender.get? net.address = some submission ∧
        submission.name = bundle
  blocks : ∀ block ∈ net.chain.blocks, net.OwnAdmitted block
  previews : ∀ block ∈ net.previews, net.OwnAdmitted block

omit [DecidableEq H] in
theorem Aligned.receivedSeq_le (aligned : net.Aligned) :
    net.wallet.receivedSeq ≤ net.chain.confirmedSeq net.address := by
  obtain confirmed_eq | ⟨confirmed_eq, _⟩ := aligned.confirmedSeq <;> omega

omit [DecidableEq H] in
theorem Aligned.confirmedSeq_of_none (aligned : net.Aligned)
    (none_pending : ∀ seq, net.wallet.getPendingBundle seq = none) :
    net.chain.confirmedSeq net.address = net.wallet.receivedSeq := by
  obtain confirmed_eq | ⟨_, bundle, _, seq, context, found, _⟩ := aligned.confirmedSeq
  · exact confirmed_eq
  · rw [none_pending] at found
    cases found

omit [DecidableEq H] in
theorem Aligned.neverConfirmed (aligned : net.Aligned) : net.NeverConfirmed where
  pool := by
    intro submission member sender_eq rolled
    obtain ⟨addr, pending⟩ := (OrderedDict.mem_values_iff _ _).mp member
    exact aligned.apart _ rolled (aligned.pool addr submission pending sender_eq)
  blocks := by
    intro block block_mem entry member addr_eq rolled
    exact aligned.apart _ rolled (aligned.blocks block block_mem entry member addr_eq).1
  nextSequence := by
    intro none_pending
    rw [aligned.confirmedSeq_of_none none_pending, LocalWalletDB.nextSequence_of_none none_pending]

omit [DecidableEq H] in
theorem aligned_new (address : Address) (genesisBlockHash : H) (version chainId receiptCacheBlocks
    maxBundleBytes maxTxPerBundle maxValueEntriesPerTx : ℕ) :
    (new address genesisBlockHash (.new version chainId receiptCacheBlocks maxBundleBytes
      maxTxPerBundle maxValueEntriesPerTx genesisBlockHash)).Aligned where
  wellFormed := wellFormed_new _ _ _ _ _ _ _
  single := by nofun
  pendingSeq := by nofun
  confirmedSeq := .inl rfl
  receipts := by nofun
  requests := by nofun
  admitted := by nofun
  apart := by nofun
  pool := by nofun
  held := by nofun
  blocks := by nofun
  previews := by nofun

/-! ### Wallet steps -/

omit [DecidableEq H] in
/-- Only the seq bookkeeping of the wallet matters. -/
theorem Aligned.of_sameSeqs (aligned : net.Aligned) {wallet : LocalWalletDB H}
    (same : net.wallet.SameSeqs wallet) : { net with wallet := wallet }.Aligned := by
  have address_eq : { net with wallet := wallet }.address = net.address := same.address
  have pending_iff : ∀ bundle,
      { net with wallet := wallet }.IsPending bundle ↔ net.IsPending bundle := by
    intro bundle
    simp only [IsPending, same.getPendingBundle_eq]
  have own_iff : ∀ block,
      { net with wallet := wallet }.OwnAdmitted block ↔ net.OwnAdmitted block := by
    intro block
    simp only [OwnAdmitted, address_eq]
  constructor <;>
    simp only [address_eq, pending_iff, own_iff, same.receivedSeq_eq, same.getPendingBundle_eq,
      LocalWalletDB.OnePending]
  exacts [aligned.wellFormed, aligned.single, aligned.pendingSeq, aligned.confirmedSeq,
    aligned.receipts, aligned.requests, aligned.admitted, aligned.apart, aligned.pool,
    aligned.held, aligned.blocks, aligned.previews]

omit [DecidableEq H] in
theorem name_of_built {db : LocalWalletDB H} {call : BundleCall}
    {context : PendingBundleContext H} {marked : List (LocalValueRecord H × Option Bool)}
    (built : db.BundleBuilt call context marked) : context.seq = call.seq ∧
      context.sidecar.senderAddr = db.address ∧ context.envelope.seq = context.seq ∧
      context.envelope.bundleHash = context.bundleHash := by
  have sealed := built.sealed
  rw [LocalWalletDB.sealBundle] at sealed
  split_ifs at sealed
  rw [Except.ok.injEq, Prod.mk.injEq] at sealed
  have context_eq := built.context_eq
  rw [← sealed.1, ← sealed.2] at context_eq
  rw [context_eq]
  exact ⟨rfl, rfl, rfl, rfl⟩

/-- A saved pending bundle follows the last receipt; its request may be sent. -/
theorem Aligned.withPendingBundle (aligned : net.Aligned)
    (free : net.wallet.pendingBundles.keys = [])
    {context : PendingBundleContext H} (seq_eq : context.seq = net.wallet.nextSequence)
    {requests : List (BundleSubmission H)} {rolledBack : List (BundleName H)}
    (sent : ∀ submission ∈ requests, submission ∈ net.requests ∨
      submission.sidecar.senderAddr = net.address ∧ submission.name = context.name)
    (kept : rolledBack ⊆ net.rolledBack)
    (dropped : ∀ bundle ∈ net.rolledBack, bundle ∈ rolledBack ∨ bundle = context.name) :
    { net with
      wallet := net.wallet.withPendingBundle context
      requests := requests
      rolledBack := rolledBack }.Aligned := by
  let after : PaymentNetwork H :=
    { net with
      wallet := net.wallet.withPendingBundle context
      requests := requests
      rolledBack := rolledBack }
  have none_pending := LocalWalletDB.getPendingBundle_of_free free
  have confirmed_eq := aligned.confirmedSeq_of_none none_pending
  have next_eq := LocalWalletDB.nextSequence_of_none none_pending
  have none_is : ∀ bundle, ¬ net.IsPending bundle := by
    rintro bundle ⟨seq, other, found, _⟩
    rw [none_pending] at found
    cases found
  have is_pending : after.IsPending context.name :=
    ⟨context.seq, context, (LocalWalletDB.getPendingBundle_withPendingBundle free).mpr ⟨rfl, rfl⟩,
      rfl⟩
  refine
    { wellFormed := aligned.wellFormed
      single := LocalWalletDB.onePending_withPendingBundle free context
      pendingSeq := ?_
      confirmedSeq := .inl confirmed_eq
      receipts := aligned.receipts
      requests := ?_
      admitted := fun bundle member =>
        .inl ((aligned.admitted bundle member).resolve_right (none_is bundle))
      apart := fun bundle member => aligned.apart bundle (kept member)
      pool := aligned.pool
      held := ?_
      blocks := aligned.blocks
      previews := aligned.previews }
  · intro seq other found
    obtain ⟨rfl, rfl⟩ := (LocalWalletDB.getPendingBundle_withPendingBundle free).mp found
    exact ⟨rfl, seq_eq.trans next_eq⟩
  rotate_left
  · rintro _ bundle member ⟨seq, other, found, rfl⟩
    obtain ⟨rfl, rfl⟩ := (LocalWalletDB.getPendingBundle_withPendingBundle free).mp found
    have received := (aligned.admitted _ member).resolve_right (none_is _)
    rw [PendingBundleContext.name, seq_eq, next_eq] at received
    exact absurd received (Nat.not_succ_le_self _)
  · intro submission member
    rcases sent submission member with earlier | ⟨sender_eq, name_eq⟩
    · obtain ⟨sender_eq, rolled | received | pending⟩ := aligned.requests submission earlier
      · refine ⟨sender_eq, ?_⟩
        rcases dropped _ rolled with still | name_eq
        · exact .inl still
        · exact .inr (.inr (name_eq ▸ is_pending))
      · exact ⟨sender_eq, .inr (.inl received)⟩
      · exact absurd pending (none_is _)
    · exact ⟨sender_eq, .inr (.inr (name_eq ▸ is_pending))⟩

theorem Aligned.submitPayment (aligned : net.Aligned) (call : BundleCall) :
    (net.submitPayment call).Aligned := by
  rw [PaymentNetwork.submitPayment]
  obtain ⟨message, raised⟩ | ⟨context, marked, built, same, result_eq⟩ :=
    net.wallet.execute_buildBundle { call with seq := net.wallet.nextSequence }
  · rw [raised]
    exact aligned
  · obtain ⟨seq_eq, sender_eq, envelope_seq, envelope_hash⟩ := name_of_built built
    generalize net.wallet.execute _ = executed at same result_eq
    obtain ⟨message | ⟨submission, other⟩, wallet⟩ := executed
    · exact (aligned.withPendingBundle built.free seq_eq (fun _ member => .inl member)
        (List.Subset.refl _) fun _ member => .inl member).of_sameSeqs same
    · have submission_eq : submission = ⟨context.envelope, context.sidecar, call.publicKeyPem⟩ :=
        result_eq _ rfl
      have name_eq : submission.name = context.name := by
        rw [submission_eq]
        exact Prod.ext envelope_seq envelope_hash
      have sent : ∀ request ∈ submission :: net.requests, request ∈ net.requests ∨
          request.sidecar.senderAddr = net.address ∧ request.name = context.name := by
        intro request member
        rcases List.mem_cons.mp member with rfl | earlier
        · refine .inr ⟨?_, name_eq⟩
          rw [submission_eq]
          exact sender_eq
        · exact .inl earlier
      refine (aligned.withPendingBundle built.free seq_eq sent
        (fun _ => List.mem_of_mem_filter) fun bundle rolled => ?_).of_sameSeqs same
      by_cases bundle_eq : bundle = submission.name
      · exact .inr (bundle_eq.trans name_eq)
      · exact .inl (List.mem_filter.mpr ⟨rolled, decide_eq_true bundle_eq⟩)

/-- A rollback drops a pending bundle that was never admitted. -/
theorem Aligned.submitPaymentRaises (aligned : net.Aligned) {seq : ℕ}
    (unadmitted : net.Unadmitted (.submitPaymentRaises seq)) :
    (net.submitPaymentRaises seq).Aligned := by
  rw [PaymentNetwork.submitPaymentRaises]
  cases pending : net.wallet.getPendingBundle seq with
  | none => exact aligned
  | some context =>
      simp only
      rw [(LocalWalletDB.perform_rollbackPendingBundle pending).1]
      have none_pending : ∀ other,
          (net.wallet.afterRollback context seq).getPendingBundle other = none :=
        aligned.single.get?_erase pending
      have is_context : ∀ bundle, net.IsPending bundle → bundle = context.name := by
        rintro bundle ⟨other, otherContext, found, rfl⟩
        obtain rfl := aligned.single other seq _ _ found pending
        rw [pending] at found
        cases found
        rfl
      have absent : context.name ∉ net.admitted := unadmitted context pending
      exact
        { wellFormed := aligned.wellFormed
          single := LocalWalletDB.onePending_of_none none_pending
          pendingSeq := by
            intro other otherContext found
            rw [none_pending] at found
            cases found
          confirmedSeq := by
            obtain confirmed_eq | ⟨_, bundle, member, is_pending⟩ := aligned.confirmedSeq
            · exact .inl confirmed_eq
            · exact absurd (is_context bundle is_pending ▸ member) absent
          receipts := aligned.receipts
          requests := by
            intro submission member
            obtain ⟨sender_eq, rolled | received | is_pending⟩ := aligned.requests submission member
            · exact ⟨sender_eq, .inl (List.mem_cons_of_mem _ rolled)⟩
            · exact ⟨sender_eq, .inr (.inl received)⟩
            · exact ⟨sender_eq, .inl (is_context _ is_pending ▸ List.mem_cons_self)⟩
          admitted := by
            intro bundle member
            refine .inl ((aligned.admitted bundle member).resolve_right fun is_pending => ?_)
            exact absent (is_context bundle is_pending ▸ member)
          apart := List.forall_mem_cons.mpr ⟨absent, aligned.apart⟩
          pool := aligned.pool
          held := by
            rintro _ bundle _ ⟨other, otherContext, found, _⟩
            rw [none_pending] at found
            cases found
          blocks := aligned.blocks
          previews := aligned.previews }

/-- An issued receipt that the wallet applies is the one of its pending bundle. -/
theorem Aligned.receiptDeliver (aligned : net.Aligned) {receipt : Receipt H}
    (delivered : receipt ∈ net.receipts) :
    { net with wallet := net.wallet.perform (.onReceiptConfirmed receipt) }.Aligned := by
  obtain same | ⟨context, checked, _, next_eq⟩ := net.wallet.perform_onReceiptConfirmed receipt
  · rw [same]
    exact aligned
  rw [next_eq]
  have none_pending : ∀ seq,
      (net.wallet.afterReceipt receipt context).getPendingBundle seq = none :=
    aligned.single.get?_erase checked.pending
  obtain ⟨context_seq, seq_eq⟩ := aligned.pendingSeq _ _ checked.pending
  have received_eq : (net.wallet.afterReceipt receipt context).receivedSeq = receipt.seq :=
    LocalWalletDB.foldr_max_keys_set net.wallet.receipts _ (by
      rw [LocalWalletDB.receivedSeq] at seq_eq
      omega)
  have confirmed_eq : net.chain.confirmedSeq net.address = receipt.seq := by
    have issued_le := aligned.receipts receipt delivered
    obtain confirmed_eq | ⟨confirmed_eq, _⟩ := aligned.confirmedSeq <;> omega
  have pending_le : ∀ bundle, net.IsPending bundle → bundle.1 ≤ receipt.seq := by
    rintro bundle ⟨seq, other, found, rfl⟩
    obtain ⟨other_seq, other_eq⟩ := aligned.pendingSeq _ _ found
    simp only [PendingBundleContext.name]
    omega
  exact
    { wellFormed := aligned.wellFormed
      single := LocalWalletDB.onePending_of_none none_pending
      pendingSeq := by
        intro other otherContext found
        rw [none_pending] at found
        cases found
      confirmedSeq := .inl (confirmed_eq.trans received_eq.symm)
      receipts := aligned.receipts
      requests := by
        intro submission member
        obtain ⟨sender_eq, rolled | received | is_pending⟩ := aligned.requests submission member
        · exact ⟨sender_eq, .inl rolled⟩
        · exact ⟨sender_eq, .inr (.inl (by simp only [received_eq]; omega))⟩
        · exact ⟨sender_eq, .inr (.inl (received_eq ▸ pending_le _ is_pending))⟩
      admitted := by
        intro bundle member
        obtain received | is_pending := aligned.admitted bundle member
        · exact .inl (by simp only [received_eq]; omega)
        · exact .inl (received_eq ▸ pending_le _ is_pending)
      apart := aligned.apart
      pool := aligned.pool
      held := by
        rintro _ bundle _ ⟨other, otherContext, found, _⟩
        rw [none_pending] at found
        cases found
      blocks := aligned.blocks
      previews := aligned.previews }

/-! ### Chain steps -/

theorem bundleSubmit_of_ok {submission : BundleSubmission H} {chain : ChainStateV2 H}
    (submitted : net.chain.submitBundle submission = .ok chain) :
    net.bundleSubmit submission = { net with
      chain := chain
      admitted :=
        if submission.sidecar.senderAddr = net.address then submission.name :: net.admitted
        else net.admitted } := by
  rw [PaymentNetwork.bundleSubmit, submitted]

omit [Crypto H] [DecidableEq H] in
theorem OwnAdmitted.mono {block : BlockV2 H} (own : net.OwnAdmitted block)
    {admitted : List (BundleName H)} (more : net.admitted ⊆ admitted) {chain : ChainStateV2 H} :
    { net with chain := chain, admitted := admitted }.OwnAdmitted block :=
  fun entry member addr_eq => ⟨more (own entry member addr_eq).1, (own entry member addr_eq).2⟩

omit [DecidableEq H] in
theorem Aligned.isPending_of_executable (aligned : net.Aligned) {submission : BundleSubmission H}
    (sent : submission ∈ net.requests) (kept : submission.name ∉ net.rolledBack)
    (executable : submission.envelope.seq = net.chain.confirmedSeq net.address + 1 ∨
      ∃ existing, net.chain.bundlePool.pendingBySender.get? net.address = some existing ∧
        existing.envelope.seq = submission.envelope.seq) : net.IsPending submission.name := by
  have seq_eq : submission.envelope.seq = net.chain.confirmedSeq net.address + 1 := by
    rcases executable with seq_eq | ⟨existing, found, seq_eq⟩
    · exact seq_eq
    · obtain ⟨sender_eq, ready⟩ := aligned.wellFormed.pool _ _ found
      rw [← seq_eq, ready.seq, sender_eq]
  have received_le := aligned.receivedSeq_le
  obtain ⟨_, rolled | received | is_pending⟩ := aligned.requests submission sent
  · exact absurd rolled kept
  · omega
  · exact is_pending

theorem Aligned.bundleSubmit (aligned : net.Aligned) {submission : BundleSubmission H}
    (delivers : net.Delivers (.bundleSubmit submission))
    (unadmitted : net.Unadmitted (.bundleSubmit submission)) :
    (net.bundleSubmit submission).Aligned := by
  rw [PaymentNetwork.bundleSubmit]
  cases submitted : net.chain.submitBundle submission with
  | error message => exact aligned
  | ok chain =>
      have taken := submitted_of_ok submitted
      have confirmed_eq : chain.confirmedSeq net.address = net.chain.confirmedSeq net.address := by
        simp only [ChainStateV2.confirmedSeq, ChainStateV2.headRefOf, taken.leaves]
      let admitted : List (BundleName H) :=
        if submission.sidecar.senderAddr = net.address then submission.name :: net.admitted
        else net.admitted
      have mem_admitted : ∀ bundle, bundle ∈ admitted ↔ bundle ∈ net.admitted ∨
          submission.sidecar.senderAddr = net.address ∧ bundle = submission.name := by
        intro bundle
        simp only [admitted]
        split <;> simp_all [or_comm]
      have kept : submission.sidecar.senderAddr = net.address → submission.name ∉ net.rolledBack :=
        fun own rolled => unadmitted own rolled chain submitted
      have own_pending : submission.sidecar.senderAddr = net.address →
          net.IsPending submission.name := by
        intro own
        have executable := taken.executable
        rw [own] at executable
        exact aligned.isPending_of_executable
          (delivers.resolve_right fun other => other own) (kept own) executable
      have more : net.admitted ⊆ admitted :=
        fun bundle member => (mem_admitted bundle).mpr (.inl member)
      exact
        { wellFormed := aligned.wellFormed.submitBundle submitted
          single := aligned.single
          pendingSeq := aligned.pendingSeq
          confirmedSeq := by
            apply aligned.confirmedSeq.imp confirmed_eq.trans
            rintro ⟨seq_eq, bundle, member, is_pending⟩
            exact ⟨confirmed_eq.trans seq_eq, bundle, more member, is_pending⟩
          receipts :=
            fun receipt member => (aligned.receipts receipt member).trans_eq confirmed_eq.symm
          requests := aligned.requests
          admitted := by
            intro bundle member
            obtain earlier | ⟨own, rfl⟩ := (mem_admitted bundle).mp member
            · exact aligned.admitted bundle earlier
            · exact .inr (own_pending own)
          apart := by
            intro bundle rolled member
            obtain earlier | ⟨own, rfl⟩ := (mem_admitted bundle).mp member
            · exact aligned.apart bundle rolled earlier
            · exact kept own rolled
          pool := by
            intro addr pending found sender_eq
            by_cases addr_eq : addr = submission.sidecar.senderAddr
            · rw [addr_eq, taken.pending, Option.some.injEq] at found
              exact (mem_admitted _).mpr (.inr ⟨found ▸ sender_eq, found ▸ rfl⟩)
            · rw [taken.others addr addr_eq] at found
              exact more (aligned.pool addr pending found sender_eq)
          held := by
            intro seq_eq bundle member is_pending
            obtain earlier | ⟨own, rfl⟩ := (mem_admitted bundle).mp member
            · obtain ⟨existing, found, rfl⟩ :=
                aligned.held (confirmed_eq.symm.trans seq_eq) bundle earlier is_pending
              by_cases own : net.address = submission.sidecar.senderAddr
              · exact ⟨submission, own ▸ taken.pending,
                  (taken.replaces existing (own ▸ found)).symm⟩
              · exact ⟨existing, (taken.others _ own).trans found, rfl⟩
            · exact ⟨submission, own ▸ taken.pending, rfl⟩
          blocks := fun block member => (aligned.blocks block (taken.blocks ▸ member)).mono more
          previews := fun block member => (aligned.previews block member).mono more }

omit [DecidableEq H] in
/-- A block whose own entries are admitted confirms the pending bundle, or nothing of the
account. -/
theorem Aligned.extend (aligned : net.Aligned) {chain : ChainStateV2 H} {block : BlockV2 H}
    {receipts : List (Receipt H)} (own : net.OwnAdmitted block)
    (wellFormed : chain.WellFormed)
    (leaves_eq : chain.accountLeaves =
      setAccountLeaves net.chain.accountLeaves block.diffPackage.diffEntries)
    (blocks_eq : chain.blocks = net.chain.blocks ++ [block])
    (sendersNodup : (block.diffPackage.diffEntries.map fun entry => entry.newLeaf.addr).Nodup)
    (follows : ∀ entry ∈ block.diffPackage.diffEntries, entry.newLeaf.addr = net.address →
      entry.bundleEnvelope.seq = net.chain.confirmedSeq net.address + 1)
    (pool_kept : ∀ addr submission, chain.bundlePool.pendingBySender.get? addr = some submission →
      net.chain.bundlePool.pendingBySender.get? addr = some submission)
    (pool_others : (∀ entry ∈ block.diffPackage.diffEntries, entry.newLeaf.addr ≠ net.address) →
      chain.bundlePool.pendingBySender.get? net.address =
        net.chain.bundlePool.pendingBySender.get? net.address)
    (issued : ∀ receipt ∈ receipts, receipt ∈ net.receipts ∨
      ∃ entry ∈ block.diffPackage.diffEntries, entry.newLeaf.addr = net.address ∧
        receipt.seq = entry.bundleEnvelope.seq) :
    { net with chain := chain, receipts := receipts }.Aligned := by
  have received_le := aligned.receivedSeq_le
  have confirmed_eq : chain.confirmedSeq net.address = net.chain.confirmedSeq net.address ∧
      (∀ entry ∈ block.diffPackage.diffEntries, entry.newLeaf.addr ≠ net.address) ∨
      chain.confirmedSeq net.address = net.chain.confirmedSeq net.address + 1 ∧
        net.chain.confirmedSeq net.address = net.wallet.receivedSeq ∧
        ∃ bundle ∈ net.admitted, net.IsPending bundle := by
    by_cases written : ∃ entry ∈ block.diffPackage.diffEntries, entry.newLeaf.addr = net.address
    · right
      obtain ⟨entry, member, addr_eq⟩ := written
      obtain ⟨entry_admitted, keeps⟩ := own entry member addr_eq
      have entry_seq := follows entry member addr_eq
      have confirmed_eq := confirmedSeq_of_written leaves_eq sendersNodup member keeps
      rw [addr_eq, entry_seq] at confirmed_eq
      refine ⟨confirmed_eq, ?_⟩
      obtain received | is_pending := aligned.admitted _ entry_admitted
      · simp only [DiffEntry.name] at received
        omega
      · refine ⟨?_, entry.name, entry_admitted, is_pending⟩
        obtain ⟨seq, context, found, name_eq⟩ := is_pending
        obtain ⟨context_seq, seq_eq⟩ := aligned.pendingSeq _ _ found
        have entry_name : context.seq = entry.bundleEnvelope.seq := congrArg Prod.fst name_eq
        omega
    · left
      have absent : ∀ entry ∈ block.diffPackage.diffEntries, entry.newLeaf.addr ≠ net.address :=
        fun entry member addr_eq => written ⟨entry, member, addr_eq⟩
      exact ⟨confirmedSeq_of_unwritten leaves_eq absent, absent⟩
  have confirmed_le : net.chain.confirmedSeq net.address ≤ chain.confirmedSeq net.address := by
    obtain ⟨confirmed_eq, _⟩ | ⟨confirmed_eq, _⟩ := confirmed_eq <;> omega
  exact
    { wellFormed := wellFormed
      single := aligned.single
      pendingSeq := aligned.pendingSeq
      confirmedSeq := by
        obtain ⟨confirmed_eq, _⟩ | ⟨confirmed_eq, received_eq, pending⟩ := confirmed_eq
        · exact aligned.confirmedSeq.imp confirmed_eq.trans fun above =>
            ⟨confirmed_eq.trans above.1, above.2⟩
        · exact .inr ⟨confirmed_eq.trans (congrArg (· + 1) received_eq), pending⟩
      receipts := by
        intro receipt member
        obtain earlier | ⟨entry, entry_mem, addr_eq, seq_eq⟩ := issued receipt member
        · exact (aligned.receipts receipt earlier).trans confirmed_le
        · have entry_seq := follows entry entry_mem addr_eq
          obtain ⟨_, absent⟩ | ⟨confirmed_eq, _⟩ := confirmed_eq
          · exact absurd addr_eq (absent entry entry_mem)
          · exact (seq_eq.trans (entry_seq.trans confirmed_eq.symm)).le
      requests := aligned.requests
      admitted := aligned.admitted
      apart := aligned.apart
      pool := fun addr submission found =>
        aligned.pool addr submission (pool_kept addr submission found)
      held := by
        intro seq_eq bundle member is_pending
        obtain ⟨confirmed_eq, absent⟩ | ⟨confirmed_eq, received_eq, _⟩ := confirmed_eq
        · obtain ⟨submission, found, name_eq⟩ :=
            aligned.held (confirmed_eq.symm.trans seq_eq) bundle member is_pending
          exact ⟨submission, (pool_others absent).trans found, name_eq⟩
        · have seq_eq : chain.confirmedSeq net.address = net.wallet.receivedSeq := seq_eq
          omega
      blocks := by
        intro other member
        rcases List.mem_append.mp (blocks_eq ▸ member) with earlier | last
        · exact aligned.blocks other earlier
        · exact List.mem_singleton.mp last ▸ own
      previews := aligned.previews }

omit [DecidableEq H] in
theorem Aligned.ownAdmitted (aligned : net.Aligned) {block : BlockV2 H}
    (pending : ∀ entry ∈ block.diffPackage.diffEntries, KeepsSeq entry ∧ ∃ addr submission,
      net.chain.bundlePool.pendingBySender.get? addr = some submission ∧
        entry.newLeaf.addr = submission.sidecar.senderAddr ∧ entry.name = submission.name) :
    net.OwnAdmitted block := by
  intro entry member addr_eq
  obtain ⟨keeps, addr, submission, found, sender_eq, name_eq⟩ := pending entry member
  exact ⟨name_eq ▸ aligned.pool addr submission found (sender_eq.symm.trans addr_eq), keeps⟩

omit [DecidableEq H] in
theorem mem_issued {receipts : OrderedDict Address (Receipt H)} {block : BlockV2 H}
    (receipts_eq : receipts = net.chain.blockReceipts block) :
    ∀ receipt ∈ net.issued receipts ++ net.receipts, receipt ∈ net.receipts ∨
      ∃ entry ∈ block.diffPackage.diffEntries, entry.newLeaf.addr = net.address ∧
        receipt.seq = entry.bundleEnvelope.seq := by
  intro receipt member
  rcases List.mem_append.mp member with new | earlier
  · rw [issued, Option.mem_toList, receipts_eq] at new
    exact .inr (exists_entry_of_blockReceipts new)
  · exact .inl earlier

theorem Aligned.produceBlock (aligned : net.Aligned) (timestamp : ℕ)
    (proposerSig consensusExtra : Bytes) (limit : Option ℤ) :
    (net.produceBlock timestamp proposerSig consensusExtra limit).Aligned := by
  rw [PaymentNetwork.produceBlock]
  split_ifs with empty
  · exact aligned
  have wellFormed := aligned.wellFormed.buildBlock timestamp proposerSig consensusExtra limit
  have built_eq := net.chain.executeSubmissions_eq (net.chain.bundlePool.snapshot limit) timestamp
    proposerSig consensusExtra true
  rw [ChainStateV2.buildBlock] at wellFormed ⊢
  simp only at built_eq
  rw [built_eq] at wellFormed ⊢
  have senders : (∀ entry ∈ (net.chain.builtBlock timestamp proposerSig consensusExtra
      limit).diffPackage.diffEntries, entry.newLeaf.addr ≠ net.address) →
        ∀ submission ∈ net.chain.bundlePool.snapshot limit,
          submission.sidecar.senderAddr ≠ net.address := by
    intro absent submission member
    rw [builtBlock, diffEntries_executedBlock] at absent
    exact absent _ (List.mem_map_of_mem ((perm_sortSubmissions _).mem_iff.mpr member))
  exact aligned.extend (aligned.ownAdmitted fun _ => exists_pending_of_builtBlock) wellFormed
    rfl rfl
    (aligned.wellFormed.sendersNodup_builtBlock timestamp proposerSig consensusExtra limit)
    (fun entry member addr_eq => addr_eq ▸ aligned.wellFormed.seq_of_builtBlock member)
    (fun _ _ found => (get?_foldl_removeFinalizedBundle _ _ _ _ _ found).1)
    (fun absent => get?_foldl_removeFinalizedBundle_of_ne _ _ _ _ _ (senders absent))
    (mem_issued rfl)

theorem Aligned.previewBlock (aligned : net.Aligned) (timestamp : ℕ)
    (proposerSig consensusExtra : Bytes) (limit : Option ℤ) :
    (net.previewBlock timestamp proposerSig consensusExtra limit).Aligned := by
  rw [PaymentNetwork.previewBlock]
  split_ifs with empty
  · exact aligned
  · exact
      { aligned with
        previews := List.forall_mem_cons.mpr
          ⟨aligned.ownAdmitted fun _ => exists_pending_of_previewBlock, aligned.previews⟩ }

theorem Aligned.applyBlock (aligned : net.Aligned) {block : BlockV2 H}
    (previewed : block ∈ net.previews) : (net.applyBlock block).Aligned := by
  rw [PaymentNetwork.applyBlock]
  by_cases accepted : net.chain.BlockAccepted block
  · rw [applyBlock_of_accepted accepted]
    refine aligned.extend (aligned.previews block previewed)
      (aligned.wellFormed.nextState accepted) rfl rfl accepted.sendersNodup ?_
      (fun _ _ found => (get?_foldl_removeFinalizedBundle _ _ _ _ _ found).1)
      (get?_foldl_removeFinalizedBundle_of_ne _ _ _ _ _) (mem_issued rfl)
    intro entry member addr_eq
    obtain ⟨_, _, _, entry_accepted⟩ := accepted.exists_entryAccepted member
    exact addr_eq ▸ entry_accepted.seq
  · obtain ⟨message, raised⟩ := applyBlock_of_not_accepted accepted
    rw [raised]
    exact aligned

/-! ### Runs -/

theorem Aligned.step (aligned : net.Aligned) {action : PaymentAction H}
    (delivers : net.Delivers action) (unadmitted : net.Unadmitted action) :
    (net.step action).Aligned := by
  cases action with
  | submitPayment call => exact aligned.submitPayment call
  | submitPaymentRaises seq => exact aligned.submitPaymentRaises unadmitted
  | receiptDeliver receipt => exact aligned.receiptDeliver delivers
  | walletCall call => exact aligned.of_sameSeqs (.perform delivers)
  | bundleSubmit submission => exact aligned.bundleSubmit delivers unadmitted
  | produceBlock timestamp proposerSig consensusExtra limit =>
      exact aligned.produceBlock timestamp proposerSig consensusExtra limit
  | previewBlock timestamp proposerSig consensusExtra limit =>
      exact aligned.previewBlock timestamp proposerSig consensusExtra limit
  | applyBlock block => exact aligned.applyBlock delivers

/-- A step that leads to a good state admits no request of a rolled-back bundle. -/
theorem Aligned.unadmitted_of_neverConfirmed (aligned : net.Aligned) {action : PaymentAction H}
    (never : (net.step action).NeverConfirmed) : net.Unadmitted action := by
  cases action with
  | submitPaymentRaises seq =>
      intro context pending member
      have next_eq : net.step (.submitPaymentRaises seq) = { net with
          wallet := net.wallet.afterRollback context seq
          rolledBack := context.name :: net.rolledBack } := by
        simp only [PaymentNetwork.step, PaymentNetwork.submitPaymentRaises, pending,
          (LocalWalletDB.perform_rollbackPendingBundle pending).1]
      rw [next_eq] at never
      have none_pending : ∀ other,
          (net.wallet.afterRollback context seq).getPendingBundle other = none :=
        aligned.single.get?_erase pending
      have follows := never.nextSequence none_pending
      rw [LocalWalletDB.nextSequence_of_none none_pending] at follows
      -- The chain has not confirmed the bundle, so it is still in the pool.
      obtain ⟨submission, found, name_eq⟩ := aligned.held (Nat.succ.inj follows).symm _ member
        ⟨seq, context, pending, rfl⟩
      have stored := (OrderedDict.mem_values_iff _ _).mpr ⟨_, found⟩
      have sender_eq := (aligned.wellFormed.pool _ _ found).1
      exact never.pool submission stored sender_eq (name_eq ▸ List.mem_cons_self)
  | bundleSubmit submission =>
      intro own rolled chain submitted
      have next_eq := bundleSubmit_of_ok submitted
      rw [PaymentNetwork.step, next_eq] at never
      have stored := (OrderedDict.mem_values_iff _ _).mpr ⟨_, (submitted_of_ok submitted).pending⟩
      exact never.pool submission stored own rolled
  | submitPayment call => trivial
  | receiptDeliver receipt => trivial
  | walletCall call => trivial
  | produceBlock timestamp proposerSig consensusExtra limit => trivial
  | previewBlock timestamp proposerSig consensusExtra limit => trivial
  | applyBlock block => trivial

/-- In a run over the network, no rolled-back bundle is ever confirmed and the wallet's next seq is
always the one that the chain expects, exactly when the consensus host admits no request of a bundle
that is rolled back. -/
theorem neverConfirmed_iff_unadmitted (address : Address) (genesisBlockHash : H) (version chainId
    receiptCacheBlocks maxBundleBytes maxTxPerBundle maxValueEntriesPerTx : ℕ)
    (actions : List (PaymentAction H))
    (delivered : Along step Delivers (new address genesisBlockHash (.new version chainId
      receiptCacheBlocks maxBundleBytes maxTxPerBundle maxValueEntriesPerTx genesisBlockHash))
        actions) :
    (∀ earlier, earlier <+: actions →
      (earlier.foldl step (new address genesisBlockHash (.new version chainId
        receiptCacheBlocks maxBundleBytes maxTxPerBundle maxValueEntriesPerTx
          genesisBlockHash))).NeverConfirmed) ↔
      Along step Unadmitted (new address genesisBlockHash (.new version chainId receiptCacheBlocks
        maxBundleBytes maxTxPerBundle maxValueEntriesPerTx genesisBlockHash)) actions := by
  have kept : ∀ (net : PaymentNetwork H) action, net.Aligned → net.Delivers action →
      net.Unadmitted action → (net.step action).Aligned :=
    fun _ _ aligned delivers unadmitted => aligned.step delivers unadmitted
  have exact_step : ∀ (net : PaymentNetwork H) action, net.Aligned → net.Delivers action →
      (net.step action).NeverConfirmed → net.Unadmitted action :=
    fun _ _ aligned _ never => aligned.unadmitted_of_neverConfirmed never
  exact (along_iff_always kept (fun _ => Aligned.neverConfirmed) exact_step delivered
    (aligned_new _ _ _ _ _ _ _ _)).symm

end Crypto

section Examples

open SymbolicDigest LocalWalletDB

/-- A new wallet of Alice next to a new chain. -/
def start : PaymentNetwork SymbolicDigest := new alice (filled 0) genesis

/-- Alice adds a genesis value and submits a payment of the middle of it. -/
def payment : List (PaymentAction SymbolicDigest) :=
  [.walletCall (.addGenesisValue coin "coin"), .submitPayment partialCall]

/-- The request is lost. -/
def lostRequest : List (PaymentAction SymbolicDigest) := payment ++ [.submitPaymentRaises 1]

/-- Alice's wallet rolls the bundle back, and the chain never hears of it. -/
theorem neverConfirmed_lostRequest :
    (lostRequest.foldl step start).rolledBack.length = 1 ∧
      (lostRequest.foldl step start).NeverConfirmed := by
  have delivered : Along step Delivers start lostRequest := ⟨trivial, trivial, trivial, trivial⟩
  have unadmitted : Along step Unadmitted start lostRequest :=
    ⟨trivial, trivial, by nofun, trivial⟩
  exact ⟨rfl, (neverConfirmed_iff_unadmitted alice (filled 0) 2 1 32 32768 128 64 lostRequest
    delivered).mpr unadmitted lostRequest (List.prefix_refl _)⟩

/-- The bundle that Alice's wallet sends. -/
def paymentRequest : BundleSubmission SymbolicDigest where
  envelope := bundleEnvelope partialCall partialCall_seq_pos (transferBundle alice bob middle)
  sidecar := transferBundle alice bob middle
  senderPublicKeyPem := [1]

/-- The chain whose pool holds it. -/
def admittedChain : ChainStateV2 SymbolicDigest :=
  { genesis with
    bundlePool := { genesis.bundlePool with
      pendingBySender := genesis.bundlePool.pendingBySender.set alice paymentRequest } }

theorem submitBundle_paymentRequest : genesis.submitBundle paymentRequest = .ok admittedChain := by
  have checked : genesis.bundlePool.checkSubmission paymentRequest 0 = .ok alice := by
    simp only [BundlePool.checkSubmission, bind_eq_ok, require_eq_ok, exists_const, pure_eq_ok]
    exact ⟨alice, rfl, rfl, rfl, by decide, rfl, .inr rfl, by decide, by decide, by decide,
      by decide, rfl⟩
  simp only [ChainStateV2.submitBundle, BundlePool.submit, bind_eq_ok, pure_eq_ok]
  refine ⟨alice, rfl, admittedChain.bundlePool, ⟨alice, checked, ?_⟩, rfl⟩
  exact ⟨(), require_of (.inl rfl) _, rfl⟩

/-- The network once the request has arrived. -/
def admittedPayment : PaymentNetwork SymbolicDigest :=
  { start with
    wallet := fundedWallet.perform (.buildBundle partialCall)
    chain := admittedChain
    requests := [paymentRequest]
    admitted := [paymentRequest.name] }

theorem bundleSubmit_payment :
    (payment.foldl step start).bundleSubmit paymentRequest = admittedPayment := by
  have sent : payment.foldl step start =
      { start with
        wallet := fundedWallet.perform (.buildBundle partialCall)
        requests := [paymentRequest] } := rfl
  rw [sent, bundleSubmit_of_ok submitBundle_paymentRequest]
  rfl

/-- The request arrives and its block is produced, but the response is lost. -/
def lostResponse : List (PaymentAction SymbolicDigest) :=
  payment ++ [.bundleSubmit paymentRequest, .produceBlock 1 [] [] none, .submitPaymentRaises 1]

/-- Alice's wallet goes on with a seq that the chain has confirmed already. -/
theorem lostResponse_confirmed :
    Along step Delivers start lostResponse ∧ ¬ (lostResponse.foldl step start).NeverConfirmed := by
  constructor
  · refine along_append.mpr ⟨⟨trivial, trivial, trivial⟩, .inl ?_, trivial, trivial, trivial⟩
    exact List.mem_singleton_self paymentRequest
  · have admitted : (payment.foldl step start).step (.bundleSubmit paymentRequest) =
        admittedPayment := bundleSubmit_payment
    rw [lostResponse, List.foldl_append, List.foldl_cons, admitted]
    intro never
    have free : ((admittedPayment.step (.produceBlock 1 [] [] none)).step
        (.submitPaymentRaises 1)).wallet.pendingBundles.keys = [] := rfl
    have next_eq : ((admittedPayment.step (.produceBlock 1 [] [] none)).step
        (.submitPaymentRaises 1)).wallet.nextSequence = 1 := rfl
    have confirmed_eq : ((admittedPayment.step (.produceBlock 1 [] [] none)).step
        (.submitPaymentRaises 1)).chain.confirmedSeq alice = 1 := rfl
    have follows := never.nextSequence (getPendingBundle_of_free free)
    exact absurd (next_eq.symm.trans (follows.trans (congrArg (· + 1) confirmed_eq))) (by decide)

end Examples

end PaymentNetwork

end EZChain
