import EZChain.Library.Checks
import EZChain.Library.JsonText
import EZChain.Library.OrderedDict
import EZChain.Serde.Classes

/-!
# Construction of instances

`cls(**kwargs)`: arguments are matched with the fields of the class, absent ones get their default,
and `__post_init__` checks the fields.  The checks take whatever values the fields hold, as the
decoder passes on what it finds.
-/

namespace EZChain.Serde

open Checks

/-- Exceptions; of those that the interpreter raises only the kind is kept. -/
inductive SerdeError where
  | keyError (key : JsonText.Value)
  | valueError (message : String)
  /-- A `ValueError` of the interpreter. -/
  | invalidValue
  | typeError
  | attributeError

/-! ## Operations on values -/

namespace Datum

/-- `bool(value)`. -/
def truthy : Datum → Bool
  | .none => false
  | .bool value => value
  | .int value => value ≠ 0
  | .str value => value ≠ ""
  | .bytes value => !value.isEmpty
  | .list items => !items.isEmpty
  | .tuple items => !items.isEmpty
  | .dict entries => !entries.isEmpty
  | .enumMember _ _ => true
  | .dataclass _ _ => true

def isNone : Datum → Bool
  | .none => true
  | _ => false

/-- The number that a comparison with a number sees. -/
def toInt : Datum → Except SerdeError ℤ
  | .bool value => .ok (if value then 1 else 0)
  | .int value => .ok value
  | _ => .error .typeError

/-- `len(value)`. -/
def length : Datum → Except SerdeError ℕ
  | .str value => .ok value.length
  | .bytes value => .ok value.length
  | .list items => .ok items.length
  | .tuple items => .ok items.length
  | .dict entries => .ok entries.length
  | _ => .error .typeError

/-- What a loop over a value visits. -/
def items : Datum → Except SerdeError (List Datum)
  | .str value => .ok (value.toList.map fun char => .str (String.singleton char))
  | .bytes value => .ok (value.map fun byte => .int byte.toNat)
  | .list items => .ok items
  | .tuple items => .ok items
  | .dict entries => .ok (entries.map fun entry => .str entry.1)
  | _ => .error .typeError

/-- A field of an instance. -/
def getField (name : String) : Datum → Except SerdeError Datum
  | .dataclass _ fields => demand (OrderedDict.findValue name fields) .attributeError
  | _ => .error .attributeError

mutual

/-- `==`. -/
def equals : Datum → Datum → Bool
  | .none, .none => true
  | .bool value, .bool other => value = other
  | .bool value, .int other => (if value then 1 else 0) = other
  | .int value, .bool other => value = if other then 1 else 0
  | .int value, .int other => value = other
  | .str value, .str other => value = other
  | .bytes value, .bytes other => value = other
  | .enumMember enumClass value, .enumMember otherClass other =>
      enumClass = otherClass ∧ value = other
  | .list items, .list others => itemsEqual items others
  | .tuple items, .tuple others => itemsEqual items others
  | .dict entries, .dict others => entries.length = others.length ∧ entriesEqual entries others
  | .dataclass className fields, .dataclass otherName others =>
      className = otherName ∧ entriesEqual fields others
  | _, _ => false

def itemsEqual : List Datum → List Datum → Bool
  | [], [] => true
  | item :: items, other :: others => item.equals other && itemsEqual items others
  | _, _ => false

/-- Every entry has its value under the same key of the other entries. -/
def entriesEqual : List (String × Datum) → List (String × Datum) → Bool
  | [], _ => true
  | (key, value) :: entries, others =>
      (match OrderedDict.findValue key others with
        | .none => false
        | .some other => value.equals other) && entriesEqual entries others

end

mutual

/-- `hash(value)` is defined; instances of `LocalValueRecord` can be changed and have no hash. -/
def hashable : Datum → Bool
  | .list _ => false
  | .dict _ => false
  | .tuple items => itemsHashable items
  | .dataclass className fields => className ≠ .localValueRecord ∧ fieldsHashable fields
  | _ => true

def itemsHashable : List Datum → Bool
  | [] => true
  | item :: items => item.hashable && itemsHashable items

def fieldsHashable : List (String × Datum) → Bool
  | [] => true
  | (_, value) :: fields => value.hashable && fieldsHashable fields

end

mutual

/-- `value < other`. -/
def lessThan : Datum → Datum → Except SerdeError Bool
  | .str value, .str other => .ok (value < other)
  | .bytes value, .bytes other => .ok (value < other)
  | .list items, .list others => itemsLessThan items others
  | .tuple items, .tuple others => itemsLessThan items others
  | value, other => do
      let number ← value.toInt
      let otherNumber ← other.toInt
      return number < otherNumber

/-- The first items that differ decide. -/
def itemsLessThan : List Datum → List Datum → Except SerdeError Bool
  | [], others => .ok !others.isEmpty
  | _ :: _, [] => .ok false
  | item :: items, other :: others =>
      if item.equals other then itemsLessThan items others else item.lessThan other

end

/-- Put an item before the first one that is not less. -/
def insertSorted (item : Datum) : List Datum → Except SerdeError (List Datum)
  | [] => .ok [item]
  | other :: others => do
      if ← other.lessThan item then
        let others ← insertSorted item others
        return other :: others
      else return item :: other :: others

/-- `sorted(items)`. -/
def sorted : List Datum → Except SerdeError (List Datum)
  | [] => .ok []
  | item :: items => do
      let items ← sorted items
      insertSorted item items

/-- The items of a `set`, one of each. -/
def distinct (items : List Datum) : Except SerdeError (List Datum) :=
  if itemsHashable items then .ok (items.pwFilter fun item other => !item.equals other)
  else .error .typeError

end Datum

/-! ## Checks of fields -/

/-- `or` of tests, which stops at the first that holds. -/
def anyOf : List (Except SerdeError Bool) → Except SerdeError Bool
  | [] => .ok false
  | test :: tests => do
      if ← test then return true else anyOf tests

/-- `raise ValueError(message)` if a test holds. -/
def reject (tests : List (Except SerdeError Bool)) (message : String) : Except SerdeError Unit := do
  let fails ← anyOf tests
  require (fails = false) (.valueError message)

def negative (value : Datum) : Except SerdeError Bool := do
  let number ← value.toInt
  return number < 0

def notPositive (value : Datum) : Except SerdeError Bool := do
  let number ← value.toInt
  return number ≤ 0

/-- `value < other` for numbers. -/
def below (value other : Datum) : Except SerdeError Bool := do
  let number ← value.toInt
  let otherNumber ← other.toInt
  return number < otherNumber

/-- `if not value: raise ValueError(message)`. -/
def requireSet (value : Datum) (message : String) : Except SerdeError Unit :=
  require (value.truthy = true) (.valueError message)

/-- `_require_hash32`. -/
def requireHash32 (name : String) : Datum → Except SerdeError Unit
  | .bytes value => require (value.length = 32) (.valueError (name ++ " must be 32 bytes"))
  | _ => .error (.valueError (name ++ " must be 32 bytes"))

/-- A hash that may be absent. -/
def requireHash32IfSet (name : String) (value : Datum) : Except SerdeError Unit :=
  if value.isNone then .ok () else requireHash32 name value

/-- `ValueRange.intersects`. -/
def intersects (range other : Datum) : Except SerdeError Bool := do
  let rangeBegin ← range.getField "begin" >>= Datum.toInt
  let otherEnd ← other.getField "end" >>= Datum.toInt
  if rangeBegin ≤ otherEnd then
    let otherBegin ← other.getField "begin" >>= Datum.toInt
    let rangeEnd ← range.getField "end" >>= Datum.toInt
    return otherBegin ≤ rangeEnd
  else return false

/-- Ranges sorted by their ends, as the check of `OffChainTx` sorts them. -/
def sortedRanges (ranges : List Datum) : Except SerdeError (List Datum) := do
  let keyed ← ranges.mapM fun range => do
    let rangeBegin ← range.getField "begin" >>= Datum.toInt
    let rangeEnd ← range.getField "end" >>= Datum.toInt
    return ((rangeBegin, rangeEnd), range)
  return (keyed.insertionSort fun left right =>
    left.1.1 < right.1.1 ∨ left.1.1 = right.1.1 ∧ left.1.2 ≤ right.1.2).map Prod.snd

/-- No item intersects the one after it. -/
def requireApart : List Datum → Except SerdeError Unit
  | range :: next :: ranges => do
      reject [intersects range next] "value_list cannot contain overlapping ranges"
      requireApart (next :: ranges)
  | _ => .ok ()

/-- No item begins at or before the end of the one before it, or right after it. -/
def requireGaps : List Datum → Except SerdeError Unit
  | range :: next :: ranges => do
      let nextBegin ← next.getField "begin" >>= Datum.toInt
      let rangeEnd ← range.getField "end" >>= Datum.toInt
      require (¬ nextBegin ≤ rangeEnd + 1)
        (.valueError "claim ranges must be normalized and non-adjacent")
      requireGaps (next :: ranges)
  | _ => .ok ()

/-- The checks of the signers of a certificate. -/
def requireSigners (signers : Datum) : Except SerdeError Unit := do
  requireSet signers "signers cannot be empty"
  let items ← signers.items
  let ordered ← Datum.sorted items
  require ((Datum.tuple ordered).equals signers = true)
    (.valueError "signers must be sorted")
  let different ← Datum.distinct items
  let count ← signers.length
  require (different.length = count) (.valueError "signers cannot contain duplicates")

/-- The checks of the position of a message. -/
def requirePosition (self : String → Datum) (message : String) : Except SerdeError Unit := do
  reject [negative (self "chain_id"), negative (self "epoch_id")] message
  reject [notPositive (self "height"), notPositive (self "round")]
    "height and round must be positive"

/-! ## Checks of instances -/

namespace ClassName

/-- `__post_init__` on the values of the fields; classes without one check nothing. -/
def check (self : String → Datum) : ClassName → Except SerdeError Unit
  | .bundleRef => do
      requireHash32 "block_hash" (self "block_hash")
      requireHash32 "bundle_hash" (self "bundle_hash")
      reject [negative (self "height"), notPositive (self "seq")]
        "bundle ref height/seq must be positive"
  | .offChainTx => do
      requireSet (self "sender_addr") "sender and recipient must be set"
      requireSet (self "recipient_addr") "sender and recipient must be set"
      reject [negative (self "tx_local_index")] "tx_local_index must be non-negative"
      requireSet (self "value_list") "value_list cannot be empty"
      let ranges ← (self "value_list").items
      let ordered ← sortedRanges ranges
      require ((Datum.tuple ordered).equals (self "value_list") = true)
        (.valueError "value_list must be sorted by begin/end")
      requireApart ranges
  | .bundleEnvelope => do
      requireHash32 "bundle_hash" (self "bundle_hash")
      requireHash32IfSet "claim_set_hash" (self "claim_set_hash")
      reject [negative (self "version"), negative (self "chain_id"), notPositive (self "seq")]
        "invalid envelope numeric field"
      reject [negative (self "expiry_height"), negative (self "fee"),
        negative (self "anti_spam_nonce")] "invalid envelope numeric field"
  | .bundleSidecar => do
      requireSet (self "sender_addr") "sender_addr must be set"
      let count ← (self "tx_list").length
      require ((self "tx_count").equals (.int count) = true) (.valueError "tx_count mismatch")
      let txs ← (self "tx_list").items
      txs.forM fun tx => do
        let sender ← tx.getField "sender_addr"
        require (sender.equals (self "sender_addr") = true)
          (.valueError "bundle sidecar sender mismatch")
  | .pendingBundleContext => do
      requireSet (self "sender_addr") "sender_addr must be set"
      requireHash32 "bundle_hash" (self "bundle_hash")
      reject [notPositive (self "seq")] "seq must be positive"
  | .accountLeaf => do
      requireSet (self "addr") "addr must be set"
      requireHash32IfSet "claim_set_hash" (self "claim_set_hash")
  | .diffEntry => do
      requireHash32 "addr_key" (self "addr_key")
      requireHash32 "bundle_hash" (self "bundle_hash")
  | .sparseMerkleProof => do
      let siblings ← (self "siblings").items
      siblings.forM (requireHash32 "sibling")
  | .claimRangeSet => do
      let ranges ← (self "ranges").items
      requireGaps ranges
  | .sparseMerkleMultiProofNode => do
      let bits ← (self "prefix_bits").items
      require (Datum.itemsHashable bits = true) .typeError
      require (∀ bit ∈ bits, bit.equals (.str "0") = true ∨ bit.equals (.str "1") = true)
        (.valueError "prefix_bits must be a binary string")
      requireHash32 "node_hash" (self "node_hash")
  | .sparseMerkleMultiProof => do
      reject [notPositive (self "depth")] "depth must be positive"
      let keys ← (self "keys").items
      keys.forM fun key => do
        let length ← key.length
        require ((Datum.int (length * 8)).equals (self "depth") = true)
          (.valueError "key length does not match multiproof depth")
  | .receiptProofBatch => do
      requireSet (self "batch_id") "batch_id must be set"
      requireHash32 "state_root" (self "state_root")
  | .receiptProofRef => do
      requireSet (self "batch_id") "batch_id must be set"
      requireHash32 "key" (self "key")
  | .headerLite => do
      reject [negative (self "height")] "height must be non-negative"
      requireHash32 "block_hash" (self "block_hash")
      requireHash32 "state_root" (self "state_root")
  | .receipt => do
      reject [notPositive (self "seq")] "seq must be positive"
      requireHash32IfSet "claim_set_hash" (self "claim_set_hash")
      require ((self "account_state_proof").isNone ≠ (self "proof_batch_ref").isNone)
        (.valueError "receipt must carry exactly one proof form")
  | .checkpoint => do
      reject [negative (self "value_begin"), below (self "value_end") (self "value_begin")]
        "invalid checkpoint value range"
      requireSet (self "owner_addr") "owner_addr must be set"
      reject [negative (self "checkpoint_height")] "checkpoint_height must be non-negative"
      requireHash32 "checkpoint_block_hash" (self "checkpoint_block_hash")
      requireHash32 "checkpoint_bundle_hash" (self "checkpoint_bundle_hash")
  | .genesisAnchor => do
      requireHash32 "genesis_block_hash" (self "genesis_block_hash")
      requireSet (self "first_owner_addr") "first_owner_addr must be set"
      reject [below (self "value_end") (self "value_begin")] "invalid genesis anchor range"
  | .witnessV2 => requireSet (self "current_owner_addr") "current_owner_addr must be set"
  | .blockHeaderV2 => do
      reject [negative (self "version"), negative (self "chain_id"), negative (self "height"),
        negative (self "timestamp")] "invalid block header field"
      requireHash32 "prev_block_hash" (self "prev_block_hash")
      requireHash32 "state_root" (self "state_root")
      requireHash32 "diff_root" (self "diff_root")
  | .diffPackage => do
      let entryCount ← (self "diff_entries").length
      let sidecarCount ← (self "sidecars").length
      require (entryCount = sidecarCount)
        (.valueError "diff_entries and sidecars length mismatch")
      if (self "sender_public_keys").truthy then
        let keyCount ← (self "sender_public_keys").length
        require (keyCount = entryCount) (.valueError "sender_public_keys length mismatch")
  | .blockV2 => requireHash32 "block_hash" (self "block_hash")
  | .valueRange => do
      reject [negative (self "begin"), negative (self "end")] "value range cannot be negative"
      reject [below (self "end") (self "begin")] "value range end must be >= begin"
  | .consensusValidator => do
      requireSet (self "validator_id") "validator_id must be set"
      requireSet (self "consensus_vote_pubkey") "consensus_vote_pubkey must be set"
      requireSet (self "vrf_pubkey") "vrf_pubkey must be set"
      reject [notPositive (self "weight")] "weight must be positive"
  | .consensusGenesisConfig => do
      reject [negative (self "chain_id")] "chain_id must be non-negative"
      reject [negative (self "epoch_id")] "epoch_id must be non-negative"
      requireSet (self "validators") "validators cannot be empty"
  | .proposal => do
      requirePosition self "invalid proposal numeric field"
      requireSet (self "proposer_id") "proposer_id must be set"
      requireHash32IfSet "validator_set_hash" (self "validator_set_hash")
      requireHash32IfSet "block_hash" (self "block_hash")
      requireHash32IfSet "justify_qc_hash" (self "justify_qc_hash")
  | .vote => do
      requirePosition self "invalid vote numeric field"
      requireSet (self "voter_id") "voter_id must be set"
      requireHash32IfSet "validator_set_hash" (self "validator_set_hash")
      requireHash32IfSet "block_hash" (self "block_hash")
  | .timeoutVote => do
      requirePosition self "invalid timeout vote numeric field"
      requireSet (self "voter_id") "voter_id must be set"
      unless (self "high_qc_round").isNone do
        reject [negative (self "high_qc_round")] "high_qc_round must be non-negative"
      requireHash32IfSet "validator_set_hash" (self "validator_set_hash")
      requireHash32IfSet "high_qc_hash" (self "high_qc_hash")
  | .qc => do
      requirePosition self "invalid qc numeric field"
      requireSigners (self "signers")
      requireHash32IfSet "validator_set_hash" (self "validator_set_hash")
      requireHash32IfSet "block_hash" (self "block_hash")
  | .tc => do
      requirePosition self "invalid tc numeric field"
      requireSigners (self "signers")
      unless (self "high_qc_round").isNone do
        reject [negative (self "high_qc_round")] "high_qc_round must be non-negative"
      requireHash32IfSet "validator_set_hash" (self "validator_set_hash")
      requireHash32IfSet "high_qc_hash" (self "high_qc_hash")
  | .vrfProposerClaim => do
      requirePosition self "invalid vrf claim numeric field"
      requireSet (self "validator_id") "validator_id must be set"
      requireSet (self "vrf_output") "vrf_output must be set"
      requireSet (self "vrf_proof") "vrf_proof must be set"
      requireHash32 "validator_set_hash" (self "validator_set_hash")
  | .pacemakerState => do
      reject [notPositive (self "current_round")] "current_round must be positive"
      reject [negative (self "highest_qc_round"), negative (self "locked_qc_round"),
        negative (self "highest_tc_round")] "round fields must be non-negative"
      reject [negative (self "last_decided_round"), negative (self "consecutive_local_timeouts")]
        "state counters must be non-negative"
      reject [notPositive (self "base_timeout_ms"),
        below (self "max_timeout_ms") (self "base_timeout_ms")] "timeout bounds must be valid"
  | _ => .ok ()

/-- The value of a field. -/
def valueOf (fields : List (String × Datum)) (name : String) : Datum :=
  (OrderedDict.findValue name fields).getD .none

/-- A sidecar whose count of transactions is zero gets it from the list. -/
def countTransactions (fields : List (String × Datum)) :
    Except SerdeError (List (String × Datum)) :=
  if (valueOf fields "tx_count").equals (.int 0) = true then do
    requireSet (valueOf fields "sender_addr") "sender_addr must be set"
    let count ← (valueOf fields "tx_list").length
    return OrderedDict.setEntry "tx_count" (.int count) fields
  else .ok fields

/-- `__post_init__`, which returns the fields that the instance has after it. -/
def postInit (className : ClassName) (fields : List (String × Datum)) :
    Except SerdeError (List (String × Datum)) :=
  match className with
  | .bundleSidecar => do
      let fields ← countTransactions fields
      check (valueOf fields) .bundleSidecar
      return fields
  | className => do
      check (valueOf fields) className
      return fields

end ClassName

/-- What the factories of defaults make at the time of a call. -/
structure Factories where
  requestId : String
  createdAt : ℤ

/-- The default of a field. -/
def Default.get (factories : Factories) : Default → Except SerdeError Datum
  | .required => .error .typeError
  | .value constant => .ok constant
  | .requestId => .ok (.str factories.requestId)
  | .createdAt => .ok (.int factories.createdAt)

/-- The value of a field when an instance is made with keyword arguments. -/
def argument (factories : Factories) (arguments : List (String × Datum)) (decl : FieldDecl) :
    Except SerdeError (String × Datum) := do
  let value ←
    match OrderedDict.findValue decl.name arguments with
    | some value => .ok value
    | none => decl.default.get factories
  return (decl.name, value)

/-- `cls(**arguments)`. -/
def ClassName.construct (factories : Factories) (className : ClassName)
    (arguments : List (String × Datum)) : Except SerdeError Datum := do
  require (∀ entry ∈ arguments, entry.1 ∈ className.fields.map FieldDecl.name) .typeError
  let fields ← className.fields.mapM (argument factories arguments)
  let fields ← className.postInit fields
  return .dataclass className fields

end EZChain.Serde
