import EZChain.Types

/-!
# Canonical forms

`canonicalize` turns a record into plain data before it is encoded and hashed.  Digests stay
atoms of the canonical form, so the byte string of an encoding is represented by the canonical
value it encodes.  The canonical form of each record determines the record.
-/

namespace EZChain

/-- Plain data produced by `canonicalize`. -/
inductive Canon (H : Type) where
  | none
  | bool (value : Bool)
  | int (value : ℤ)
  | bytes (value : Bytes)
  | digest (value : H)
  | str (value : String)
  | list (items : List (Canon H))
  | dict (fields : List (String × Canon H))

/-- One piece of the input of a hash function. -/
inductive Chunk (H : Type) where
  /-- A literal domain tag. -/
  | tag (name : String)
  /-- The UTF-8 bytes of a text. -/
  | text (value : String)
  /-- Raw bytes. -/
  | bytes (value : Bytes)
  /-- The 32 bytes of a digest. -/
  | digest (value : H)
  /-- The result of `canonical_encode`. -/
  | encoded (value : Canon H)

namespace Canon

variable {H : Type}

/-- Number of bytes of `_encode_int`: a type byte, a sign, a length and the magnitude. -/
def encodedIntLength (value : ℤ) : ℕ :=
  let magnitude := value.natAbs
  6 + if magnitude = 0 then 1 else (Nat.log2 magnitude + 1 + 7) / 8

mutual

/-- Number of bytes of `_encode_value`. -/
def encodedLength : Canon H → ℕ
  | none => 1
  | bool _ => 1
  | int value => encodedIntLength value
  | bytes value => 5 + value.length
  | digest _ => 5 + 32
  | str value => 5 + value.utf8ByteSize
  | list items => 5 + encodedListLength items
  | dict fields => 5 + encodedFieldsLength fields

/-- Total number of bytes of the items of a list. -/
def encodedListLength : List (Canon H) → ℕ
  | [] => 0
  | item :: items => encodedLength item + encodedListLength items

/-- Total number of bytes of the keys and values of a dictionary. -/
def encodedFieldsLength : List (String × Canon H) → ℕ
  | [] => 0
  | (key, value) :: fields =>
      5 + key.utf8ByteSize + encodedLength value + encodedFieldsLength fields

end

/-- `None` or a canonical value. -/
def option {α : Type} (canonicalize : α → Canon H) : Option α → Canon H
  | .none => .none
  | .some value => canonicalize value

end Canon

section Records

variable {H : Type}

/-- Dictionary of the two ends of a range. -/
def ValueRange.canonicalize (range : ValueRange) : Canon H :=
  .dict [("begin", .int range.valueBegin), ("end", .int range.valueEnd)]

def BundleRef.canonicalize (ref : BundleRef H) : Canon H :=
  .dict [("height", .int ref.height), ("block_hash", .digest ref.blockHash),
    ("bundle_hash", .digest ref.bundleHash), ("seq", .int ref.seq)]

def OffChainTx.canonicalize (tx : OffChainTx) : Canon H :=
  .dict [("sender_addr", .str tx.senderAddr.text), ("recipient_addr", .str tx.recipientAddr.text),
    ("value_list", .list (tx.valueList.map ValueRange.canonicalize)),
    ("tx_local_index", .int tx.txLocalIndex), ("tx_time", .int tx.txTime),
    ("extra_data", .bytes tx.extraData)]

def BundleSidecar.canonicalize (sidecar : BundleSidecar) : Canon H :=
  .dict [("sender_addr", .str sidecar.senderAddr.text),
    ("tx_list", .list (sidecar.txList.map OffChainTx.canonicalize)),
    ("tx_count", .int sidecar.txList.length)]

def BundleEnvelope.canonicalize (envelope : BundleEnvelope H) : Canon H :=
  .dict [("version", .int envelope.version), ("chain_id", .int envelope.chainId),
    ("seq", .int envelope.seq), ("expiry_height", .int envelope.expiryHeight),
    ("fee", .int envelope.fee), ("anti_spam_nonce", .int envelope.antiSpamNonce),
    ("bundle_hash", .digest envelope.bundleHash),
    ("claim_set_hash", Canon.option .digest envelope.claimSetHash), ("sig", .bytes envelope.sig)]

/-- The signed fields of an envelope; the claim set hash is listed only when it is set. -/
def BundleEnvelope.signingPayload (envelope : BundleEnvelope H) : Canon H :=
  .dict ([("version", .int envelope.version), ("chain_id", .int envelope.chainId),
    ("seq", .int envelope.seq), ("expiry_height", .int envelope.expiryHeight),
    ("fee", .int envelope.fee), ("anti_spam_nonce", .int envelope.antiSpamNonce),
    ("bundle_hash", .digest envelope.bundleHash)] ++
      envelope.claimSetHash.toList.map fun hash => ("claim_set_hash", .digest hash))

def AccountLeaf.canonicalize (leaf : AccountLeaf H) : Canon H :=
  .dict [("addr", .str leaf.addr.text),
    ("head_ref", Canon.option BundleRef.canonicalize leaf.headRef),
    ("prev_ref", Canon.option BundleRef.canonicalize leaf.prevRef),
    ("claim_set_hash", Canon.option .digest leaf.claimSetHash)]

/-- `_account_leaf_payload`: the claim set hash is listed only when it is set. -/
def AccountLeaf.payload (leaf : AccountLeaf H) : Canon H :=
  .dict ([("addr", .str leaf.addr.text),
    ("head_ref", Canon.option BundleRef.canonicalize leaf.headRef),
    ("prev_ref", Canon.option BundleRef.canonicalize leaf.prevRef)] ++
      leaf.claimSetHash.toList.map fun hash => ("claim_set_hash", .digest hash))

/-- Canonical list of the ranges of a claim set. -/
def ClaimRangeSet.canonicalize (claims : ClaimRangeSet) : Canon H :=
  .list (claims.ranges.map ValueRange.canonicalize)

end Records

/-! ## Canonical forms determine their records -/

section Injectivity

variable {H : Type}

theorem Address.ext_text {left right : Address} (text_eq : left.text = right.text) :
    left = right := by
  cases left
  cases right
  cases text_eq
  rfl

theorem ValueRange.canonicalize_injective :
    Function.Injective (ValueRange.canonicalize (H := H)) := by
  intro left right equality
  simp only [canonicalize, Canon.dict.injEq, List.cons.injEq, Prod.mk.injEq, Canon.int.injEq,
    true_and, and_true, Int.natCast_inj] at equality
  exact ValueRange.ext equality.1 equality.2

theorem BundleRef.canonicalize_injective :
    Function.Injective (BundleRef.canonicalize (H := H)) := by
  intro left right equality
  cases left
  cases right
  simpa [canonicalize, Int.natCast_inj] using equality

theorem OffChainTx.canonicalize_injective :
    Function.Injective (OffChainTx.canonicalize (H := H)) := by
  intro left right equality
  cases left
  cases right
  simp only [canonicalize, Canon.dict.injEq, List.cons.injEq, Prod.mk.injEq, Canon.int.injEq,
    Canon.str.injEq, Canon.list.injEq, Canon.bytes.injEq, true_and, and_true, Int.natCast_inj]
    at equality
  obtain ⟨sender_eq, recipient_eq, values_eq, index_eq, time_eq, data_eq⟩ := equality
  simp only [OffChainTx.mk.injEq]
  exact ⟨Address.ext_text sender_eq, Address.ext_text recipient_eq,
    ValueRange.canonicalize_injective.list_map values_eq, index_eq, time_eq, data_eq⟩

theorem BundleSidecar.canonicalize_injective :
    Function.Injective (BundleSidecar.canonicalize (H := H)) := by
  intro left right equality
  cases left
  cases right
  simp only [canonicalize, Canon.dict.injEq, List.cons.injEq, Prod.mk.injEq, Canon.str.injEq,
    Canon.list.injEq, true_and, and_true] at equality
  obtain ⟨sender_eq, txs_eq, _⟩ := equality
  simp only [BundleSidecar.mk.injEq]
  exact ⟨Address.ext_text sender_eq, OffChainTx.canonicalize_injective.list_map txs_eq⟩

theorem Canon.option_injective {α : Type} {canonicalize : α → Canon H}
    (injective : Function.Injective canonicalize) (ne_none : ∀ value, canonicalize value ≠ .none) :
    Function.Injective (Canon.option canonicalize) := by
  intro left right equality
  cases left with
  | none =>
      cases right with
      | none => rfl
      | some value => exact absurd equality.symm (ne_none value)
  | some value =>
      cases right with
      | none => exact absurd equality (ne_none value)
      | some other => exact congrArg some (injective equality)

theorem Canon.option_digest_injective :
    Function.Injective (Canon.option (H := H) (α := H) Canon.digest) :=
  Canon.option_injective (fun _ _ => Canon.digest.inj) (by nofun)

theorem Canon.option_ref_injective :
    Function.Injective (Canon.option (H := H) BundleRef.canonicalize) :=
  Canon.option_injective BundleRef.canonicalize_injective (by nofun)

theorem BundleEnvelope.canonicalize_injective :
    Function.Injective (BundleEnvelope.canonicalize (H := H)) := by
  intro left right equality
  cases left
  cases right
  simp only [canonicalize, Canon.dict.injEq, List.cons.injEq, Prod.mk.injEq, Canon.int.injEq,
    Canon.digest.injEq, Canon.bytes.injEq, true_and, and_true, Int.natCast_inj,
    Canon.option_digest_injective.eq_iff] at equality
  simpa only [BundleEnvelope.mk.injEq] using equality

theorem AccountLeaf.canonicalize_injective :
    Function.Injective (AccountLeaf.canonicalize (H := H)) := by
  intro left right equality
  cases left
  cases right
  simp only [canonicalize, Canon.dict.injEq, List.cons.injEq, Prod.mk.injEq, Canon.str.injEq,
    true_and, and_true, Canon.option_digest_injective.eq_iff,
    Canon.option_ref_injective.eq_iff] at equality
  simp only [AccountLeaf.mk.injEq]
  exact ⟨Address.ext_text equality.1, equality.2⟩

theorem AccountLeaf.payload_injective :
    Function.Injective (AccountLeaf.payload (H := H)) := by
  intro left right equality
  obtain ⟨addr, headRef, prevRef, claimSetHash⟩ := left
  obtain ⟨addr', headRef', prevRef', claimSetHash'⟩ := right
  simp only [payload, Canon.dict.injEq, List.cons_append, List.nil_append, List.cons.injEq,
    Prod.mk.injEq, Canon.str.injEq, true_and, Canon.option_ref_injective.eq_iff] at equality
  obtain ⟨addr_eq, head_eq, prev_eq, claims_eq⟩ := equality
  have claimSet_eq : claimSetHash = claimSetHash' := by
    cases claimSetHash <;> cases claimSetHash' <;> simp_all
  simp only [AccountLeaf.mk.injEq]
  exact ⟨Address.ext_text addr_eq, head_eq, prev_eq, claimSet_eq⟩

theorem ClaimRangeSet.canonicalize_injective :
    Function.Injective (ClaimRangeSet.canonicalize (H := H)) := by
  intro left right equality
  cases left
  cases right
  simp only [canonicalize, Canon.list.injEq] at equality
  simpa only [ClaimRangeSet.mk.injEq] using
    ValueRange.canonicalize_injective.list_map equality

end Injectivity

end EZChain
