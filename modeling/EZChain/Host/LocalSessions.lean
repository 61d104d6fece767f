import EZChain.Chain.FailedSave
import EZChain.Wallet.PaymentBundles

/-!
# Local sessions

A local session is a wallet next to a consensus node, with a mailbox for the packages that it hands
over.  A confirmed payment is one call: it reserves the records, submits the bundle, produces a
block, applies the receipt and puts the packages into the mailbox.  Nothing takes an earlier step
back when a later one raises.
-/

namespace EZChain

open Checks

variable {H : Type}

/-- What a local payment raises, and at which of its steps. -/
inductive PaymentError where
  | building (message : String)
  | admission (message : String)
  | production (message : String)
  | receipt (message : String)
  | handOver (message : String)

/-- `V2AccountNode`.  The private key appears as the signatures of the calls. -/
structure V2AccountNode (H : Type) where
  /-- The account's wallet. -/
  wallet : LocalWalletDB H
  /-- The key that its bundles are signed for. -/
  publicKeyPem : Bytes
  /-- The chain of its bundles. -/
  chainId : ℕ
  /-- The node that it is attached to. -/
  consensus : Option (ConsensusNode H)

/-- `SubmittedPayment`. -/
structure SubmittedPayment (H : Type) where
  /-- The bundle that was submitted. -/
  submission : BundleSubmission H
  /-- The transfer that pays. -/
  targetTx : OffChainTx

/-- A row of the mailbox. -/
structure MailboxRow (H : Type) where
  senderAddr : Address
  recipientAddr : Address
  /-- When the package was first put into the mailbox. -/
  createdAt : ℤ
  /-- When the recipient claimed the package. -/
  claimedAt : Option ℤ
  /-- The package to hand over. -/
  package : TransferPackage H

/-- `TransferMailboxStore`. -/
abbrev TransferMailboxStore (H : Type) := OrderedDict H (MailboxRow H)

/-- `V2LocalAppSession`: the wallet, the store of the node and the mailbox are persistent. -/
structure V2LocalAppSession (H : Type) where
  /-- The wallet on disk. -/
  wallet : LocalWalletDB H
  /-- The key that its bundles are signed for. -/
  publicKeyPem : Bytes
  /-- The chain of its bundles. -/
  chainId : ℕ
  /-- The node that confirms its payments. -/
  consensus : ConsensusNode H
  /-- Receipts are applied when they are delivered. -/
  autoConfirmReceipts : Bool
  /-- The mailbox that sessions share. -/
  mailbox : TransferMailboxStore H

/-- `ReceiptDeliveryResult`. -/
structure ReceiptDelivery where
  /-- The wallet has applied the receipt. -/
  applied : Bool
  /-- Why it has not. -/
  error : Option String

/-- The outcome of the storage engine and the time of a block. -/
structure Production where
  /-- What the storage engine answers to the save. -/
  storage : Except String Unit
  /-- The time of the block. -/
  timestamp : ℕ

variable [Crypto H] [DecidableEq H]

/-- `enqueue_package`: a row with the same package keeps its times. -/
def TransferMailboxStore.enqueuePackage (mailbox : TransferMailboxStore H)
    (senderAddr recipientAddr : Address) (package : TransferPackage H) (createdAt : ℤ) :
    TransferMailboxStore H :=
  let packageHash := transferPackageHash package
  mailbox.set packageHash
    (match mailbox.get? packageHash with
      | none => ⟨senderAddr, recipientAddr, createdAt, none, package⟩
      | some existing =>
          ⟨senderAddr, recipientAddr, existing.createdAt, existing.claimedAt, package⟩)

namespace LocalWalletDB

/-- `_apply_receipt_to_wallet`: an error is reported, not raised. -/
def applyReceipt (wallet : LocalWalletDB H) (receipt : Receipt H) :
    ReceiptDelivery × LocalWalletDB H :=
  match wallet.execute (wallet.onReceiptConfirmed receipt) with
  | (.error message, after) => (⟨false, some message⟩, after)
  | (.ok _, after) => (⟨true, none⟩, after)

/-- One turn of the loop of `sync_wallet_receipts`. -/
def syncBundle (chain : ChainStateV2 H) (wallet : LocalWalletDB H) (seq : ℕ) : LocalWalletDB H :=
  match chain.receiptCache.getReceipt wallet.address seq with
  | none => wallet.perform (.markReceiptMissing seq)
  | some receipt => (wallet.applyReceipt receipt).2

/-- `sync_wallet_receipts`: the pending bundles in the order of their sequence numbers. -/
def syncReceipts (chain : ChainStateV2 H) (wallet : LocalWalletDB H) : LocalWalletDB H :=
  (wallet.pendingBundles.keys.insertionSort (· ≤ ·)).foldl (syncBundle chain) wallet

end LocalWalletDB

/-- `V2AccountNode.submit_payment`. -/
def V2AccountNode.submitPayment (account : V2AccountNode H) (call : PaymentCall) :
    Except PaymentError (SubmittedPayment H) × V2AccountNode H :=
  match account.consensus with
  | none => (.error (.building "consensus_not_attached"), account)
  | some node =>
      match account.wallet.execute
          (account.wallet.buildPaymentBundle account.publicKeyPem account.chainId call) with
      | (.error message, wallet) => (.error (.building message), { account with wallet := wallet })
      | (.ok (submission, _, tx), wallet) =>
          match node.chain.submitBundle submission with
          | .error message => (.error (.admission message), { account with wallet := wallet })
          | .ok chain =>
              (.ok ⟨submission, tx⟩,
                { account with
                  wallet := wallet
                  consensus := some { node with chain := chain } })

/-- `V2ConsensusNode.produce_block`, up to the delivery of the receipts. -/
def ConsensusNode.produceBlock (node : ConsensusNode H) (production : Production) :
    Except String (BlockV2 H × OrderedDict Address (Receipt H)) × ConsensusNode H :=
  match (NodeCall.produceBlock production.timestamp [] [] none).extend node.chain with
  | (.error message, chain) => (.error message, { node with chain := chain })
  | (.ok (block, receipts), chain) =>
      match node.saveOn production.storage chain block receipts with
      | .error message => (.error message, { node with chain := chain })
      | .ok store => (.ok (block, receipts), { node with chain := chain, store := store })

namespace V2LocalAppSession

/-- The account node of a session, which is attached to the session's consensus node. -/
def accountNode (session : V2LocalAppSession H) : V2AccountNode H :=
  ⟨session.wallet, session.publicKeyPem, session.chainId, some session.consensus⟩

/-- The session whose account node did something. -/
def withAccount (session : V2LocalAppSession H) (account : V2AccountNode H) :
    V2LocalAppSession H :=
  { session with
    wallet := account.wallet
    consensus := account.consensus.getD session.consensus }

/-- `share_block_with_wallets`, for the only registered wallet. -/
def shareBlock (session : V2LocalAppSession H) (block : BlockV2 H) : V2LocalAppSession H :=
  { session with
    wallet := session.wallet.perform
      (.observeCanonicalHeader ⟨block.header.height, block.blockHash, block.header.stateRoot⟩) }

/-- `deliver_receipts` as the sender sees it; no other wallet is registered. -/
def deliverReceipts (session : V2LocalAppSession H) (receipts : OrderedDict Address (Receipt H)) :
    Option ReceiptDelivery × V2LocalAppSession H :=
  match receipts.get? session.wallet.address with
  | none => (none, session)
  | some receipt =>
      if session.autoConfirmReceipts then
        let applied := session.wallet.applyReceipt receipt
        (some applied.1, { session with wallet := applied.2 })
      else (some ⟨false, some "auto_confirm_disabled"⟩, session)

/-- `sync_receipts`. -/
def syncReceipts (session : V2LocalAppSession H) : V2LocalAppSession H :=
  { session with wallet := session.wallet.syncReceipts session.consensus.chain }

/-- The value loop of `queue_outgoing_transfer_packages`. -/
def queuePackages (session : V2LocalAppSession H) (targetTx : OffChainTx) :
    List ValueRange → Except String Unit × V2LocalAppSession H
  | [] => (.ok (), session)
  | value :: values =>
      match session.wallet.exportTransferPackage targetTx value with
      | .error message => (.error message, session)
      | .ok package =>
          queuePackages
            { session with
              mailbox := session.mailbox.enqueuePackage session.wallet.address
                targetTx.recipientAddr package targetTx.txTime }
            targetTx values

/-- What `submit_confirmed_payment` does with the delivery of the sender's receipt. -/
def settlePayment (session : V2LocalAppSession H) (targetTx : OffChainTx) :
    Option ReceiptDelivery → Except PaymentError Unit × V2LocalAppSession H
  | none => (.error (.receipt "sender_receipt_delivery_missing"), session)
  | some delivery =>
      let synced := if delivery.applied then session else session.syncReceipts
      if delivery.applied = false ∧ synced.wallet.pendingBundles.keys ≠ [] then
        (.error (.receipt ("sender_receipt_not_applied:" ++ delivery.error.getD "unknown")), synced)
      else
        match synced.queuePackages targetTx targetTx.valueList with
        | (.error message, queued) => (.error (.handOver message), queued)
        | (.ok (), queued) => (.ok (), queued)

/-- `submit_confirmed_payment`. -/
def submitConfirmedPayment (session : V2LocalAppSession H) (call : PaymentCall)
    (production : Production) :
    Except PaymentError (SubmittedPayment H) × V2LocalAppSession H :=
  match session.accountNode.submitPayment call with
  | (.error error, account) => (.error error, session.withAccount account)
  | (.ok submitted, account) =>
      match (session.withAccount account).consensus.produceBlock production with
      | (.error message, node) =>
          (.error (.production message), { session.withAccount account with consensus := node })
      | (.ok (block, receipts), node) =>
          let delivered := ({ session.withAccount account with
            consensus := node }.shareBlock block).deliverReceipts receipts
          match delivered.2.settlePayment submitted.targetTx delivered.1 with
          | (.error error, settled) => (.error error, settled)
          | (.ok (), settled) => (.ok submitted, settled)

end V2LocalAppSession

end EZChain
