import EZChain.Host.ReceiptMessages
import EZChain.Library.Programs
import EZChain.Wallet.AccountHost

/-!
# Account host on the network

An account host handles envelopes of any sender.  Three kinds of them write the canonical headers,
the fetched blocks and the last seen chain cursor; receipts and fetches read them, and ask peers in
between.  A handler is a program of single operations, so that others may run while it waits for
an answer.  The state file, the reset flag, the index of blocks by hash and the received transfers
are not read by any handler and are left out, as is the delivery of packages for a confirmed bundle.
-/

namespace EZChain

open Threads

variable {H : Type}

/-! ## Messages -/

/-- A `block_hash_hex`: the digits of a digest, or another text. -/
inductive HashText (H : Type) where
  | digest (hash : H)
  | text (other : String)
  deriving DecidableEq

/-- `bool(block_hash_hex)`. -/
def HashText.nonempty : HashText H → Bool
  | .digest _ => true
  | .text other => other ≠ ""

/-- `ChainSyncCursor`. -/
structure ChainSyncCursor (H : Type) where
  /-- The height of the chain. -/
  height : ℤ
  /-- The text of its last hash. -/
  blockHashHex : HashText H
  deriving DecidableEq

/-- The cursor of a block. -/
def BlockV2.cursor (block : BlockV2 H) : ChainSyncCursor H :=
  ⟨block.header.height, .digest block.blockHash⟩

/-- `NetworkEnvelope.payload`; a height is missing where the payload holds no number. -/
inductive AccountMessage (H : Type) where
  | bundleAck
  | bundleReject (error : String)
  | receipt (message : ReceiptMessage H)
  | transferPackage (package : TransferPackage H)
  | blockFetchResponse (status : Option String) (block : Option (BlockV2 H))
  | chainStateResponse (height : Option ℤ) (blockHashHex : HashText H)
  | blockAnnounce (block : Option (BlockV2 H)) (height : Option ℤ) (blockHash : HashText H)
  | other (msgType : String)

/-- `NetworkEnvelope`. -/
structure AccountEnvelope (H : Type) where
  senderId : String
  message : AccountMessage H

/-- A request of the host to a peer. -/
inductive PeerRequest (H : Type) where
  | chainState
  | blockFetch (height : ℕ) (blockHash : H)
  /-- A block of a height, whatever its hash. -/
  | blockFetchAt (height : ℕ)
  | receipt (seq : ℕ)

/-- A peer's response, as far as the host reads it. -/
structure PeerResponse (H : Type) where
  /-- The cursor of a chain state response that is `ok`. -/
  cursor : Option (ChainSyncCursor H)
  status : Option String

/-- What an operation takes from outside: the answer of a peer, which may be an exception or a
retryable error, and a fresh record id. -/
structure HostInput (H : Type) where
  /-- What a request returns or raises. -/
  response : Except String (PeerResponse H)
  /-- A fresh record id. -/
  recordId : String

/-- What a handler answers. -/
inductive AccountReply where
  | ok
  | refused (error : String)
  | fetchStatus (status : String)
  | fetched (height : ℕ)
  | receiptSeenNotApplied
  | applied (seq : ℕ)
  | received (recordId : String)

/-! ## The host -/

/-- `V2AccountHost` with its network state. -/
structure AccountHost (H : Type) where
  /-- The wallet on disk. -/
  store : StoredWallet H
  /-- The wallet, for the records that it has in memory. -/
  memory : LocalWalletDB H
  /-- The blocks that peers sent, by height. -/
  fetchedBlocks : OrderedDict ℕ (BlockV2 H)
  /-- The chain that the host was told of last. -/
  lastSeenChain : Option (ChainSyncCursor H)
  /-- The consensus peers, the preferred one first. -/
  consensusPeerIds : List String
  /-- Receipts are applied when they come. -/
  autoAcceptReceipts : Bool
  /-- The peers that support receipt pulls. -/
  receiptPullPeers : List String
  /-- No receipts are requested for an announced block. -/
  suppressReceiptPull : Bool

/-- One operation of a handler. -/
inductive HostOp (H : Type) : Type → Type where
  | send (peerId : String) (request : PeerRequest H) : HostOp H (Except String (PeerResponse H))
  | consensusPeerIds : HostOp H (List String)
  | promoteConsensusPeer (peerId : String) : HostOp H Unit
  | lastSeenChain : HostOp H (Option (ChainSyncCursor H))
  | seeChain (cursor : ChainSyncCursor H) : HostOp H Unit
  | reconcileFetchedBlocks (cursor : ChainSyncCursor H) : HostOp H Unit
  | holdBlock (block : BlockV2 H) : HostOp H Unit
  | getFetchedBlock (height : ℕ) : HostOp H (Option (BlockV2 H))
  | wantedReceipts (senderId : String) (block : BlockV2 H) : HostOp H (List ℕ)
  | hasReceipt (seq : ℕ) : HostOp H (Except String Bool)
  | reloadState : HostOp H (Except String Unit)
  | readReceipt (message : ReceiptMessage H) : HostOp H (Except String (Receipt H))
  | autoAcceptReceipts : HostOp H Bool
  | knowsCanonicalHeader (header : HeaderLite H) : HostOp H Bool
  | observeCanonicalBlock (block : BlockV2 H) : HostOp H Unit
  | onReceiptConfirmed (receipt : Receipt H) : HostOp H (Except String (ConfirmedBundleUnit H))
  | receiveTransfer (package : TransferPackage H) : HostOp H (Except String String)

/-- `_normalize_consensus_peer_ids`: empty and repeated ids are passed over. -/
def normalizePeerIds (peerIds : List String) : List String :=
  peerIds.foldl (fun ordered peerId =>
    if peerId = "" ∨ peerId ∈ ordered then ordered else ordered ++ [peerId]) []

namespace AccountHost

/-- `_promote_consensus_peer`: an unknown peer is added. -/
def promoteConsensusPeer (host : AccountHost H) (peerId : String) : AccountHost H :=
  { host with consensusPeerIds := normalizePeerIds (peerId :: host.consensusPeerIds) }

/-- Store a block: `fetched_blocks` and the canonical header of its height. -/
def holdBlock (host : AccountHost H) (block : BlockV2 H) : AccountHost H :=
  { host with
    fetchedBlocks := host.fetchedBlocks.set block.header.height block
    store := host.store.observeCanonicalBlock block }

/-- `_reconcile_fetched_blocks_with_chain_cursor`: blocks above the chain are dropped, and all
blocks if the one at its end is another. -/
def reconcileFetchedBlocks [DecidableEq H] (host : AccountHost H) (cursor : ChainSyncCursor H) :
    AccountHost H :=
  if cursor.height ≤ 0 then { host with fetchedBlocks := ∅ }
  else
    let replaced := (host.fetchedBlocks.get? cursor.height.toNat).any fun block =>
      cursor.blockHashHex.nonempty && HashText.digest block.blockHash ≠ cursor.blockHashHex
    { host with
      fetchedBlocks :=
        if replaced then ∅
        else host.fetchedBlocks.filterKeys fun height => (height : ℤ) ≤ cursor.height }

/-- `_maybe_request_receipts_from_block`: the sequence numbers to request. -/
def wantedReceipts (host : AccountHost H) (senderId : String) (block : BlockV2 H) : List ℕ :=
  if host.suppressReceiptPull ∨ senderId ∉ host.receiptPullPeers then []
  else
    (block.diffPackage.diffEntries.filter fun entry =>
      entry.newLeaf.addr = host.store.tables.address ∧
        entry.bundleEnvelope.seq ∈ host.store.tables.pendingBundles.keys).map
      fun entry => entry.bundleEnvelope.seq

variable [Crypto H] [DecidableEq H]

/-- `_latest_receipt_for_seq`, which reads all receipts. -/
def hasReceipt (host : AccountHost H) (seq : ℕ) : Except String Bool := do
  let receipts ← host.store.tables.receipts.values.mapM fun row =>
    row.2.materialize host.store.getReceiptProofBatch
  pure (receipts.any fun receipt => receipt.seq = seq)

/-- `reload_state`. -/
def reloadState (host : AccountHost H) : Except String Unit × AccountHost H :=
  match host.store.reloadState with
  | .error message => (.error message, host)
  | .ok wallet => (.ok (), { host with memory := wallet })

/-- `on_receipt_confirmed`. -/
def onReceiptConfirmed (host : AccountHost H) (receipt : Receipt H) :
    Except String (ConfirmedBundleUnit H) × AccountHost H :=
  match host.store.onReceiptConfirmed host.memory receipt with
  | (.error message, after) => (.error message, { host with store := after })
  | (.ok unit, after) =>
      (.ok unit,
        { host with store := after, memory := (after.reloadState.toOption).getD host.memory })

/-- The checks of `receive_transfer` with the validator of the package, and the transactions that
follow. -/
def planTransfer (host : AccountHost H) (package : TransferPackage H) (recordId : String) :
    Except String (LocalWalletDB.Planned H (LocalValueRecord H)) := do
  let opened := host.store.opened host.memory
  let context ← V2AccountHost.buildValidatorForPackage ⟨opened.toWalletAccountV2, []⟩ package
  opened.receiveTransfer package context recordId

/-- `receive_transfer`: the records are read back before the package is marked as accepted. -/
def receiveTransfer (host : AccountHost H) (package : TransferPackage H) (recordId : String) :
    Except String String × AccountHost H :=
  match host.planTransfer package recordId with
  | .error message => (.error message, host)
  | .ok (record, transactions) =>
      match host.store.commitAll transactions.dropLast with
      | (.error message, persisted) => (.error message, { host with store := persisted })
      | (.ok (), persisted) =>
          match persisted.reloadState with
          | .error message => (.error message, { host with store := persisted })
          | .ok wallet =>
              (.ok record.recordId,
                { host with
                  store := (persisted.commitAll transactions.getLast?.toList).2
                  memory := wallet })

/-- Perform one operation: its result, and the host afterwards. -/
def exec (host : AccountHost H) (input : HostInput H) :
    {β : Type} → HostOp H β → β × AccountHost H
  | _, .send _ _ => (input.response, host)
  | _, .consensusPeerIds => (host.consensusPeerIds, host)
  | _, .promoteConsensusPeer peerId => ((), host.promoteConsensusPeer peerId)
  | _, .lastSeenChain => (host.lastSeenChain, host)
  | _, .seeChain cursor => ((), { host with lastSeenChain := some cursor })
  | _, .reconcileFetchedBlocks cursor => ((), host.reconcileFetchedBlocks cursor)
  | _, .holdBlock block => ((), host.holdBlock block)
  | _, .getFetchedBlock height => (host.fetchedBlocks.get? height, host)
  | _, .wantedReceipts senderId block => (host.wantedReceipts senderId block, host)
  | _, .hasReceipt seq => (host.hasReceipt seq, host)
  | _, .reloadState => host.reloadState
  | _, .readReceipt message =>
      ((host.store.readReceipt message).1,
        { host with store := (host.store.readReceipt message).2 })
  | _, .autoAcceptReceipts => (host.autoAcceptReceipts, host)
  | _, .knowsCanonicalHeader header => (host.store.tables.knowsCanonicalHeader header, host)
  | _, .observeCanonicalBlock block =>
      ((), { host with store := host.store.observeCanonicalBlock block })
  | _, .onReceiptConfirmed receipt => host.onReceiptConfirmed receipt
  | _, .receiveTransfer package => host.receiveTransfer package input.recordId

end AccountHost

/-! ## Handlers -/

namespace HostOp

open Handler

/-- The first of the consensus peers. -/
def consensusPeerId : Handler (HostOp H) String := do
  let peerIds ← perform .consensusPeerIds
  pure (peerIds.headD "")

/-- `_query_chain_state_from_peer`. -/
def queryChainStateFromPeer (peerId : String) :
    Handler (HostOp H) (Option (ChainSyncCursor H)) := do
  let response ← perform (.send peerId .chainState)
  pure (response.toOption.bind PeerResponse.cursor)

/-- `_known_chain_is_ahead_of`. -/
def knownChainIsAheadOf [DecidableEq H] (known cursor : Option (ChainSyncCursor H)) : Bool :=
  match known, cursor with
  | some known, some cursor =>
      cursor.height < known.height ||
        (cursor.height = known.height && known.blockHashHex.nonempty &&
          cursor.blockHashHex.nonempty && cursor.blockHashHex ≠ known.blockHashHex)
  | _, _ => false

/-- The loop of `_query_best_chain_state_from_consensus_peers`: the best cursor so far with its
peer, and the last error. -/
def queryBest : List String → Option (String × ChainSyncCursor H) → String →
    Handler (HostOp H) (String × ChainSyncCursor H)
  | [], none, lastError => throw lastError
  | [], some best, _ => pure best
  | peerId :: rest, best, lastError => do
      let queried ← queryChainStateFromPeer peerId
      match queried with
      | none => do
          let again ← perform (.send peerId .chainState)
          queryBest rest best (match again with | .error message => message | .ok _ => lastError)
      | some cursor =>
          queryBest rest
            (if best.all fun (_, other) => other.height < cursor.height then some (peerId, cursor)
              else best) lastError

/-- `_query_best_chain_state_from_consensus_peers`. -/
def queryBestChainStateFromConsensusPeers : Handler (HostOp H) (ChainSyncCursor H) := do
  let peerIds ← perform .consensusPeerIds
  let best ← queryBest peerIds none "consensus_peer_unavailable"
  perform (.seeChain best.2)
  perform (.promoteConsensusPeer best.1)
  pure best.2

/-- `refresh_chain_state`. -/
def refreshChainState : Handler (HostOp H) (ChainSyncCursor H) := do
  let cursor ← queryBestChainStateFromConsensusPeers
  perform (.reconcileFetchedBlocks cursor)
  pure cursor

/-- `_refresh_best_peer_if_preferred_stale`. -/
def refreshBestPeerIfPreferredStale [DecidableEq H] : Handler (HostOp H) Bool := do
  let previousPeerId ← consensusPeerId
  let preferredCursor ← queryChainStateFromPeer previousPeerId
  let known ← perform .lastSeenChain
  match knownChainIsAheadOf known preferredCursor with
  | false => pure false
  | true => do
      let stalePeerId ← consensusPeerId
      let previousCursor ← perform .lastSeenChain
      let refreshed ← attempt refreshChainState
      let peerId ← consensusPeerId
      match refreshed, previousCursor with
      | none, _ => pure false
      | some _, none => pure (peerId ≠ stalePeerId)
      | some refreshed, some previous =>
          pure (peerId ≠ stalePeerId || previous.height < refreshed.height ||
            (refreshed.height = previous.height && refreshed.blockHashHex.nonempty &&
              previous.blockHashHex.nonempty && refreshed.blockHashHex ≠ previous.blockHashHex))

/-- The loop of `_send_to_consensus`. -/
def sendToFirst (request : PeerRequest H) : List String → String →
    Handler (HostOp H) (PeerResponse H)
  | [], lastError => throw lastError
  | peerId :: rest, _ => do
      let answer ← perform (.send peerId request)
      match answer with
      | .error message => sendToFirst request rest message
      | .ok response => do
          perform (.promoteConsensusPeer peerId)
          pure response

/-- `_send_to_consensus`. -/
def sendToConsensus (request : PeerRequest H) : Handler (HostOp H) (PeerResponse H) := do
  let peerIds ← perform .consensusPeerIds
  sendToFirst request peerIds "consensus_peer_unavailable"

/-- `_retry_on_missing_after_refresh`. -/
def retryOnMissingAfterRefresh [DecidableEq H] (request : PeerRequest H) :
    Handler (HostOp H) (Option (PeerResponse H)) := do
  let previousPeerId ← consensusPeerId
  let better ← refreshBestPeerIfPreferredStale
  let refreshed ← if better then pure true else Option.isSome <$> attempt refreshChainState
  let peerId ← consensusPeerId
  if refreshed ∧ peerId ≠ previousPeerId then some <$> sendToConsensus request else pure none

/-- `fetch_block` with a height: the block is looked up when the wait for it is over. -/
def fetchBlockWith [DecidableEq H] (request : PeerRequest H) (height : ℕ) :
    Handler (HostOp H) (Option (BlockV2 H)) := do
  let _ ← refreshBestPeerIfPreferredStale
  let response ← sendToConsensus request
  let block ← perform (.getFetchedBlock height)
  match block with
  | some block => pure (some block)
  | none =>
      if response.status = some "missing" then do
        let retried ← retryOnMissingAfterRefresh request
        match retried.bind PeerResponse.status with
        | some "ok" => perform (.getFetchedBlock height)
        | some "missing" => perform (.getFetchedBlock height)
        | _ => pure none
      else pure none

/-- `fetch_block`, for a height and a hash. -/
def fetchBlock [DecidableEq H] (height : ℕ) (blockHash : H) :
    Handler (HostOp H) (Option (BlockV2 H)) :=
  fetchBlockWith (.blockFetch height blockHash) height

/-- `fetch_block`, for a height only. -/
def fetchBlockAt [DecidableEq H] (height : ℕ) : Handler (HostOp H) (Option (BlockV2 H)) :=
  fetchBlockWith (.blockFetchAt height) height

/-- The block for an unknown header: a fetched one, or one that the sender or the consensus peers
send. -/
def findBlock [DecidableEq H] (senderId : String) (header : HeaderLite H) :
    Handler (HostOp H) (Option (BlockV2 H)) := do
  let held ← perform (.getFetchedBlock header.height)
  match held with
  | some block => pure (some block)
  | none => do
      let _ ← perform (.send senderId (.blockFetch header.height header.blockHash))
      let awaited ← perform (.getFetchedBlock header.height)
      match awaited with
      | some block => pure (some block)
      | none => fetchBlock header.height header.blockHash

/-- Observe the block of an unknown header. -/
def observeHeader [DecidableEq H] (senderId : String) (header : HeaderLite H) :
    Handler (HostOp H) Unit := do
  let known ← perform (.knowsCanonicalHeader header)
  if known then pure ()
  else do
    let found ← findBlock senderId header
    match found with
    | none => pure ()
    | some block =>
        if block.blockHash = header.blockHash ∧ block.header.stateRoot = header.stateRoot then
          perform (.observeCanonicalBlock block)
        else pure ()

/-- `_on_receipt`. -/
def onReceipt [DecidableEq H] (senderId : String) (message : ReceiptMessage H) :
    Handler (HostOp H) AccountReply := do
  performOk .reloadState
  let read ← perform (.readReceipt message)
  match read with
  | .error error => pure (.refused error)
  | .ok receipt => do
      let accepts ← perform .autoAcceptReceipts
      if accepts then do
        observeHeader senderId receipt.headerLite
        let _ ← performOk (.onReceiptConfirmed receipt)
        pure (.applied receipt.seq)
      else pure .receiptSeenNotApplied

/-- `_on_transfer_package`. -/
def onTransferPackage (package : TransferPackage H) : Handler (HostOp H) AccountReply := do
  performOk .reloadState
  let received ← perform (.receiveTransfer package)
  match received with
  | .error error => pure (.refused error)
  | .ok recordId => pure (.received recordId)

section Receipts

variable {Op : Type → Type} (embed : ∀ β, HostOp H β → Op β) (lookUp : Handler Op Bool)

/-- The loop of `_request_receipt_for_seq`, for every way to look the receipt up. -/
def requestReceiptFrom (seq : ℕ) : List String → Handler Op Bool
  | [] => lookUp
  | peerId :: rest => do
      let answer ← perform (embed _ (.send peerId (.receipt seq)))
      match answer with
      | .error _ => requestReceiptFrom seq rest
      | .ok _ => do
          perform (embed _ (.promoteConsensusPeer peerId))
          let applied ← lookUp
          if applied then pure true else requestReceiptFrom seq rest

/-- `_request_receipt_for_seq` without marking; the preferred peer is asked first. -/
def requestReceiptForSeq (preferredPeerId : Option String) (seq : ℕ) : Handler Op Bool := do
  let applied ← lookUp
  if applied then pure true
  else do
    let peerIds ← perform (embed _ .consensusPeerIds)
    requestReceiptFrom embed lookUp seq (normalizePeerIds (preferredPeerId.toList ++ peerIds))

end Receipts

/-- The receipts of a block are requested one after another, from its sender first; a failure is
passed over. -/
def requestReceipts (senderId : String) : List ℕ → Handler (HostOp H) Unit
  | [] => pure ()
  | seq :: rest => do
      let _ ← attempt (requestReceiptForSeq (fun _ operation => operation)
        (performOk (.hasReceipt seq)) (some senderId) seq)
      requestReceipts senderId rest

/-- Write the cursor of a payload, which must hold a height. -/
def seePayload (height : Option ℤ) (blockHashHex : HashText H) :
    Handler (HostOp H) AccountReply :=
  match height with
  | none => throw "height"
  | some height => do
      perform (.seeChain ⟨height, blockHashHex⟩)
      pure .ok

/-- The handling of a block announcement. -/
def onBlockAnnounce (senderId : String) (block : Option (BlockV2 H)) (height : Option ℤ)
    (blockHash : HashText H) : Handler (HostOp H) AccountReply :=
  match block with
  | none => seePayload height blockHash
  | some block => do
      perform (.holdBlock block)
      let seqs ← perform (.wantedReceipts senderId block)
      requestReceipts senderId seqs
      seePayload height blockHash

/-- `_on_block_fetch_response`. -/
def onBlockFetchResponse (status : Option String) (block : Option (BlockV2 H)) :
    Handler (HostOp H) AccountReply :=
  if status ≠ some "ok" then pure (.fetchStatus (status.getD "missing"))
  else
    match block with
    | none => pure (.refused "missing_block")
    | some block => do
        perform (.holdBlock block)
        let known ← perform .lastSeenChain
        if known.all fun cursor => cursor.height ≤ (block.header.height : ℤ) then do
          perform (.seeChain block.cursor)
          pure (.fetched block.header.height)
        else pure (.fetched block.header.height)

/-- `handle_envelope`. -/
def handleEnvelope [DecidableEq H] (envelope : AccountEnvelope H) :
    Handler (HostOp H) AccountReply :=
  match envelope.message with
  | .bundleAck => pure .ok
  | .bundleReject error => pure (.refused error)
  | .receipt message => onReceipt envelope.senderId message
  | .transferPackage package => onTransferPackage package
  | .blockFetchResponse status block => onBlockFetchResponse status block
  | .chainStateResponse height blockHashHex => seePayload height blockHashHex
  | .blockAnnounce block height blockHash =>
      onBlockAnnounce envelope.senderId block height blockHash
  | .other msgType => pure (.refused ("unsupported_message:" ++ msgType))

end HostOp

end EZChain
