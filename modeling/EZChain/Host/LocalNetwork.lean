import EZChain.Host.LocalSessions
import EZChain.Wallet.AccountHost

/-!
# Local network

A local network runs one consensus node and the wallets of all participants in one process.  The
runtime shares every produced block with all wallets, applies the receipts of the wallets that
confirm automatically, and hands transfer packages to their recipients.  A restart opens the store
again and registers all wallets anew; the pool is not stored.

A participant is named by its address: accounts have different names and different keys.
-/

namespace EZChain

open Checks

variable {H : Type}

/-- `V2AccountNode` of a network, with its flag in the runtime's table. -/
structure LocalParticipant (H : Type) where
  /-- The participant's wallet. -/
  wallet : LocalWalletDB H
  /-- The key that its bundles are signed for. -/
  publicKeyPem : Bytes
  /-- The runtime applies its receipts. -/
  autoConfirm : Bool

/-- `V2LocalNetwork` with its consensus node and the tables of its runtime. -/
structure V2LocalNetwork (H : Type) where
  /-- The chain of the network. -/
  chainId : ℕ
  /-- The number of blocks whose receipts are kept. -/
  receiptCacheBlocks : ℕ
  /-- The hash that new wallets and nodes start from. -/
  genesisBlockHash : H
  /-- The flag of a wallet that is registered without one. -/
  autoConfirmRegisteredWallets : Bool
  /-- The only consensus node. -/
  consensus : ConsensusNode H
  /-- The connection of the node's store is open. -/
  storeOpen : Bool
  /-- The allocation table of the store. -/
  savedAllocations : OrderedDict Address (List ValueRange)
  /-- The allocation table of the runtime, which validators read. -/
  genesisAllocations : OrderedDict Address (List ValueRange)
  /-- The accounts of the network, by address. -/
  participants : OrderedDict Address (LocalParticipant H)

/-- The arguments of `produce_block`, with the outcome of the storage engine and the time. -/
structure BlockRequest where
  /-- What the storage engine answers to the save. -/
  storage : Except String Unit
  /-- The time of the block. -/
  timestamp : ℕ
  proposerSig : Bytes
  consensusExtra : Bytes
  /-- The number of bundles to pack at most. -/
  limit : Option ℤ

/-- A call on the network.  The record ids stand for the fresh ids that the source generates. -/
inductive LocalEvent (H : Type) where
  | addAccount (publicKeyPem : Bytes) (autoConfirmReceipts : Option Bool)
  | allocateGenesisValue (address : Address) (value : ValueRange) (recordId : String)
  | submitPayment (sender : Address) (call : PaymentCall)
  | produceBlock (request : BlockRequest)
  | deliverPayment (sender : Address) (targetTx : OffChainTx) (targetValue : ValueRange)
      (recipient : Option Address) (trustedCheckpoints : List (Checkpoint H)) (recordId : String)
  | syncReceipts (address : Address)
  | restartConsensus

/-- The header that `observe_canonical_block` stores. -/
def BlockV2.headerLite (block : BlockV2 H) : HeaderLite H :=
  ⟨block.header.height, block.blockHash, block.header.stateRoot⟩

/-- `_ingest_wallet_genesis_allocations`.  A genesis anchor below zero raises in the source; no
wallet stores one. -/
def ingestWalletGenesisAllocations (allocations : OrderedDict Address (List ValueRange))
    (wallet : LocalWalletDB H) : OrderedDict Address (List ValueRange) :=
  wallet.records.foldl (fun allocations record =>
    match record.witnessV2 with
    | .genesis _ _ _ anchor =>
        match ValueRange.ofInts anchor.valueBegin anchor.valueEnd with
        | .ok value => registerGenesisAllocation allocations anchor.firstOwnerAddr value
        | .error _ => allocations
    | .checkpoint _ _ _ _ | .prior _ _ _ _ _ => allocations) allocations

variable [Crypto H] [DecidableEq H]

namespace LocalParticipant

/-- `observe_canonical_block`. -/
def observeBlock (participant : LocalParticipant H) (block : BlockV2 H) : LocalParticipant H :=
  { participant with
    wallet := participant.wallet.perform (.observeCanonicalHeader block.headerLite) }

/-- What `register_wallet` does with the wallet and its flag. -/
def register (participant : LocalParticipant H) (chain : ChainStateV2 H) (autoConfirm : Bool) :
    LocalParticipant H :=
  chain.blocks.foldl observeBlock { participant with autoConfirm := autoConfirm }

/-- `sync_receipts`. -/
def syncReceipts (chain : ChainStateV2 H) (participant : LocalParticipant H) :
    LocalParticipant H :=
  { participant with wallet := participant.wallet.syncReceipts chain }

/-- `_deliver_receipt`. -/
def deliverReceipt (participants : OrderedDict Address (LocalParticipant H))
    (senderAddr : Address) (receipt : Receipt H) :
    ReceiptDelivery × OrderedDict Address (LocalParticipant H) :=
  match participants.get? senderAddr with
  | none => (⟨false, some "wallet_not_registered"⟩, participants)
  | some participant =>
      if participant.autoConfirm then
        let applied := participant.wallet.applyReceipt receipt
        (applied.1, participants.set senderAddr { participant with wallet := applied.2 })
      else (⟨false, some "auto_confirm_disabled"⟩, participants)

/-- `_deliver_receipts`. -/
def deliverReceipts (participants : OrderedDict Address (LocalParticipant H)) :
    List (Address × Receipt H) →
      List (Address × ReceiptDelivery) × OrderedDict Address (LocalParticipant H)
  | [] => ([], participants)
  | (senderAddr, receipt) :: rest =>
      let delivered := deliverReceipt participants senderAddr receipt
      let others := deliverReceipts delivered.2 rest
      ((senderAddr, delivered.1) :: others.1, others.2)

end LocalParticipant

namespace V2LocalNetwork

/-- `V2LocalNetwork(...)` on an empty directory. -/
def new (chainId receiptCacheBlocks : ℕ) (genesisBlockHash : H)
    (autoConfirmRegisteredWallets : Bool) : V2LocalNetwork H where
  chainId := chainId
  receiptCacheBlocks := receiptCacheBlocks
  genesisBlockHash := genesisBlockHash
  autoConfirmRegisteredWallets := autoConfirmRegisteredWallets
  consensus := .new chainId receiptCacheBlocks genesisBlockHash
  storeOpen := true
  savedAllocations := ∅
  genesisAllocations := ∅
  participants := ∅

/-- The outcome of a write to the store. -/
def storage (net : V2LocalNetwork H) (outcome : Except String Unit) : Except String Unit :=
  if net.storeOpen then outcome else .error "Cannot operate on a closed database."

/-- `add_account`; the wallet's database is new. -/
def addAccount (net : V2LocalNetwork H) (publicKeyPem : Bytes)
    (autoConfirmReceipts : Option Bool) : Except String Address × V2LocalNetwork H :=
  match Crypto.addressFromPublicKeyPem H publicKeyPem with
  | .error message => (.error message, net)
  | .ok address =>
      if address ∈ net.participants.keys then (.error "participant already exists", net)
      else
        let participant : LocalParticipant H :=
          ⟨.new address net.genesisBlockHash, publicKeyPem, net.autoConfirmRegisteredWallets⟩
        (.ok address, { net with
          genesisAllocations :=
            ingestWalletGenesisAllocations net.genesisAllocations participant.wallet
          participants := net.participants.set address (participant.register net.consensus.chain
            (autoConfirmReceipts.getD net.autoConfirmRegisteredWallets)) })

/-- `allocate_genesis_value`: the wallet, the store and then the runtime. -/
def allocateGenesisValue (net : V2LocalNetwork H) (address : Address) (value : ValueRange)
    (recordId : String) : Except String (LocalValueRecord H) × V2LocalNetwork H :=
  match net.participants.get? address with
  | none => (.error "unknown participant", net)
  | some participant =>
      match participant.wallet.execute (participant.wallet.addGenesisValue value recordId) with
      | (.error message, wallet) =>
          (.error message, { net with
            participants := net.participants.set address { participant with wallet := wallet } })
      | (.ok record, wallet) =>
          let credited := { net with
            participants := net.participants.set address { participant with wallet := wallet } }
          match net.storage (.ok ()) with
          | .error message => (.error message, credited)
          | .ok () =>
              (.ok record, { credited with
                savedAllocations := registerGenesisAllocation net.savedAllocations address value
                genesisAllocations :=
                  registerGenesisAllocation net.genesisAllocations address value })

/-- The account node of a participant, which is attached to the network's consensus node. -/
def accountNode (net : V2LocalNetwork H) (participant : LocalParticipant H) : V2AccountNode H :=
  ⟨participant.wallet, participant.publicKeyPem, net.chainId, some net.consensus⟩

/-- `submit_payment`. -/
def submitPayment (net : V2LocalNetwork H) (sender : Address) (call : PaymentCall) :
    Except PaymentError (SubmittedPayment H) × V2LocalNetwork H :=
  match net.participants.get? sender with
  | none => (.error (.building "unknown participant"), net)
  | some participant =>
      let submitted := (net.accountNode participant).submitPayment call
      (submitted.1, { net with
        consensus := submitted.2.consensus.getD net.consensus
        participants := net.participants.set sender
          { participant with wallet := submitted.2.wallet } })

/-- `produce_block`: build, save, share the block and deliver the receipts. -/
def produceBlock (net : V2LocalNetwork H) (request : BlockRequest) :
    Except String (BlockV2 H × List (Address × ReceiptDelivery)) × V2LocalNetwork H :=
  match (NodeCall.produceBlock request.timestamp request.proposerSig request.consensusExtra
      request.limit).extend net.consensus.chain with
  | (.error message, chain) =>
      (.error message, { net with consensus := { net.consensus with chain := chain } })
  | (.ok (block, receipts), chain) =>
      match net.consensus.saveOn (net.storage request.storage) chain block receipts with
      | .error message =>
          (.error message, { net with consensus := { net.consensus with chain := chain } })
      | .ok store =>
          let delivered := LocalParticipant.deliverReceipts
            (net.participants.mapValues fun participant => participant.observeBlock block)
            receipts.entries
          (.ok (block, delivered.1), { net with
            consensus := { net.consensus with chain := chain, store := store }
            participants := delivered.2 })

/-- `deliver_transfer_package`: an error is reported, not raised.  Addresses are nonempty, and an
empty recipient falls back to the one of the transfer as no recipient does. -/
def deliverTransferPackage (net : V2LocalNetwork H) (package : TransferPackage H)
    (recipient : Option Address) (trustedCheckpoints : List (Checkpoint H)) (recordId : String) :
    Except String (LocalValueRecord H) × V2LocalNetwork H :=
  let address := recipient.getD package.targetTx.recipientAddr
  match net.participants.get? address with
  | none => (.error "wallet_not_registered", net)
  | some participant =>
      let wallet := participant.wallet
      let context : ValidationContext H :=
        { genesisAllocations := net.genesisAllocations
          trustedCheckpoints :=
            if trustedCheckpoints.isEmpty then
              wallet.trustedCheckpointsForWitness package.witnessV2
            else trustedCheckpoints }
      let received := wallet.execute (wallet.receiveTransfer package context recordId)
      (received.1, { net with
        participants := net.participants.set address
          { participant with wallet := received.2 } })

/-- `deliver_payment`. -/
def deliverPayment (net : V2LocalNetwork H) (sender : Address) (targetTx : OffChainTx)
    (targetValue : ValueRange) (recipient : Option Address)
    (trustedCheckpoints : List (Checkpoint H)) (recordId : String) :
    Except String (LocalValueRecord H) × V2LocalNetwork H :=
  match net.participants.get? sender with
  | none => (.error "unknown participant", net)
  | some participant =>
      match participant.wallet.exportTransferPackage targetTx targetValue with
      | .error message => (.error message, net)
      | .ok package => net.deliverTransferPackage package recipient trustedCheckpoints recordId

/-- `sync_receipts` of a participant. -/
def syncReceipts (net : V2LocalNetwork H) (address : Address) :
    Except String Unit × V2LocalNetwork H :=
  match net.participants.get? address with
  | none => (.error "unknown participant", net)
  | some participant =>
      (.ok (), { net with
        participants := net.participants.set address
          (participant.syncReceipts net.consensus.chain) })

/-- `restart_consensus`: the old store is closed before the new node reads it. -/
def restartConsensus (net : V2LocalNetwork H) : Except String Unit × V2LocalNetwork H :=
  match net.consensus.store.loadChainState 2 net.chainId net.receiptCacheBlocks
      net.genesisBlockHash with
  | .error message => (.error message, { net with storeOpen := false })
  | .ok chain =>
      (.ok (), { net with
        consensus := { net.consensus with
          chain := chain
          genesisBlockHash := (net.consensus.store.metadata.map
            ConsensusStateMetadata.genesisBlockHash).getD net.genesisBlockHash }
        storeOpen := true
        genesisAllocations := (net.participants.values.map LocalParticipant.wallet).foldl
          ingestWalletGenesisAllocations net.savedAllocations
        participants := net.participants.mapValues fun participant =>
          participant.register chain net.autoConfirmRegisteredWallets })

/-- The network after a call, whether or not the call raised. -/
def step (net : V2LocalNetwork H) : LocalEvent H → V2LocalNetwork H
  | .addAccount publicKeyPem autoConfirmReceipts =>
      (net.addAccount publicKeyPem autoConfirmReceipts).2
  | .allocateGenesisValue address value recordId =>
      (net.allocateGenesisValue address value recordId).2
  | .submitPayment sender call => (net.submitPayment sender call).2
  | .produceBlock request => (net.produceBlock request).2
  | .deliverPayment sender targetTx targetValue recipient trustedCheckpoints recordId =>
      (net.deliverPayment sender targetTx targetValue recipient trustedCheckpoints recordId).2
  | .syncReceipts address => (net.syncReceipts address).2
  | .restartConsensus => net.restartConsensus.2

end V2LocalNetwork

end EZChain
