import EZChain.Crypto

/-!
# Symbolic digests

Digests are the terms that describe how they were computed, so the hash functions are injective
by construction.  Three accounts have keys; the signature of a key is the key itself.
-/

namespace EZChain

/-- A digest, written as the hash input it was computed from. -/
inductive SymbolicDigest where
  /-- Thirty-two equal bytes. -/
  | filled (byte : ℕ)
  | keccak256 (input : List (Chunk SymbolicDigest))
  | sha256 (input : List (Chunk SymbolicDigest))

namespace SymbolicDigest

/-! ## Decidable equality -/

mutual

/-- Equality test of digests. -/
def eqDigest : SymbolicDigest → SymbolicDigest → Bool
  | filled left, filled right => left = right
  | keccak256 left, keccak256 right => eqChunks left right
  | sha256 left, sha256 right => eqChunks left right
  | _, _ => false

/-- Equality test of hash inputs. -/
def eqChunks : List (Chunk SymbolicDigest) → List (Chunk SymbolicDigest) → Bool
  | [], [] => true
  | left :: lefts, right :: rights => eqChunk left right && eqChunks lefts rights
  | _, _ => false

/-- Equality test of chunks. -/
def eqChunk : Chunk SymbolicDigest → Chunk SymbolicDigest → Bool
  | .tag left, .tag right => left = right
  | .text left, .text right => left = right
  | .bytes left, .bytes right => left = right
  | .digest left, .digest right => eqDigest left right
  | .encoded left, .encoded right => eqCanon left right
  | _, _ => false

/-- Equality test of canonical values. -/
def eqCanon : Canon SymbolicDigest → Canon SymbolicDigest → Bool
  | .none, .none => true
  | .bool left, .bool right => left = right
  | .int left, .int right => left = right
  | .bytes left, .bytes right => left = right
  | .digest left, .digest right => eqDigest left right
  | .str left, .str right => left = right
  | .list left, .list right => eqItems left right
  | .dict left, .dict right => eqFields left right
  | _, _ => false

/-- Equality test of canonical lists. -/
def eqItems : List (Canon SymbolicDigest) → List (Canon SymbolicDigest) → Bool
  | [], [] => true
  | left :: lefts, right :: rights => eqCanon left right && eqItems lefts rights
  | _, _ => false

/-- Equality test of canonical dictionaries. -/
def eqFields : List (String × Canon SymbolicDigest) → List (String × Canon SymbolicDigest) → Bool
  | [], [] => true
  | (key, left) :: lefts, (key', right) :: rights =>
      key = key' && eqCanon left right && eqFields lefts rights
  | _, _ => false

end

mutual

theorem eqDigest_iff : ∀ left right, eqDigest left right = true ↔ left = right
  | filled left, right => by cases right <;> simp [eqDigest]
  | keccak256 left, right => by cases right <;> simp [eqDigest, eqChunks_iff left]
  | sha256 left, right => by cases right <;> simp [eqDigest, eqChunks_iff left]

theorem eqChunks_iff : ∀ left right, eqChunks left right = true ↔ left = right
  | [], right => by cases right <;> simp [eqChunks]
  | left :: lefts, right => by
      cases right <;> simp [eqChunks, eqChunk_iff left, eqChunks_iff lefts]

theorem eqChunk_iff : ∀ left right, eqChunk left right = true ↔ left = right
  | .tag left, right => by cases right <;> simp [eqChunk]
  | .text left, right => by cases right <;> simp [eqChunk]
  | .bytes left, right => by cases right <;> simp [eqChunk]
  | .digest left, right => by cases right <;> simp [eqChunk, eqDigest_iff left]
  | .encoded left, right => by cases right <;> simp [eqChunk, eqCanon_iff left]

theorem eqCanon_iff : ∀ left right, eqCanon left right = true ↔ left = right
  | .none, right => by cases right <;> simp [eqCanon]
  | .bool left, right => by cases right <;> simp [eqCanon]
  | .int left, right => by cases right <;> simp [eqCanon]
  | .bytes left, right => by cases right <;> simp [eqCanon]
  | .digest left, right => by cases right <;> simp [eqCanon, eqDigest_iff left]
  | .str left, right => by cases right <;> simp [eqCanon]
  | .list left, right => by cases right <;> simp [eqCanon, eqItems_iff left]
  | .dict left, right => by cases right <;> simp [eqCanon, eqFields_iff left]

theorem eqItems_iff : ∀ left right, eqItems left right = true ↔ left = right
  | [], right => by cases right <;> simp [eqItems]
  | left :: lefts, right => by
      cases right <;> simp [eqItems, eqCanon_iff left, eqItems_iff lefts]

theorem eqFields_iff : ∀ left right, eqFields left right = true ↔ left = right
  | [], right => by cases right <;> simp [eqFields]
  | (key, left) :: lefts, right => by
      rcases right with _ | ⟨⟨key', right⟩, rights⟩
      · simp [eqFields]
      · simp [eqFields, eqCanon_iff left, eqFields_iff lefts]

end

instance : DecidableEq SymbolicDigest :=
  fun left right => decidable_of_iff _ (eqDigest_iff left right)

/-! ## Primitives -/

/-- Thirty-two equal bytes. -/
def bytesFilled (byte : UInt8) : Bytes32 := ⟨List.replicate 32 byte, List.length_replicate⟩

/-- The owner of public key 1. -/
def alice : Address := ⟨"alice", by decide⟩

/-- The owner of public key 2. -/
def bob : Address := ⟨"bob", by decide⟩

/-- The owner of public key 3. -/
def carol : Address := ⟨"carol", by decide⟩

instance : Crypto SymbolicDigest where
  keccak256 := keccak256
  sha256 := sha256
  zeroHash32 := filled 0
  digestBytes
    | filled byte => bytesFilled (UInt8.ofNat byte)
    | keccak256 [_, .text "alice"] => bytesFilled 1
    | keccak256 [_, .text "bob"] => bytesFilled 2
    | keccak256 [_, .text "carol"] => bytesFilled 3
    | _ => bytesFilled 4
  addressFromPublicKeyPem
    | [1] => .ok alice
    | [2] => .ok bob
    | [3] => .ok carol
    | _ => .error "invalid PEM bytes"
  verifyDigestSecp256k1 := fun publicKey _ signature => publicKey = signature

theorem idealHash : IdealHash SymbolicDigest :=
  fun _ _ equality => keccak256.inj equality

theorem idealSha256 : IdealSha256 SymbolicDigest :=
  fun _ _ equality => sha256.inj equality

end SymbolicDigest

end EZChain
