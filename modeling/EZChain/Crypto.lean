import EZChain.Encoding

/-!
# Hashes, addresses and signatures

The primitives of the crypto module are parameters.  A hash function maps a list of input chunks
to a digest, an address is read off a public key, and a signature is checked against a digest.
-/

namespace EZChain

/-- The cryptographic primitives used by the ledger. -/
class Crypto (H : Type) where
  /-- `keccak256` of concatenated chunks. -/
  keccak256 : List (Chunk H) → H
  /-- `hashlib.sha256` of concatenated chunks. -/
  sha256 : List (Chunk H) → H
  /-- The digest of 32 zero bytes. -/
  zeroHash32 : H
  /-- The 32 bytes of a digest. -/
  digestBytes : H → Bytes32
  /-- The account address of a public key. -/
  addressFromPublicKeyPem : Bytes → Except String Address
  /-- Signature check of a digest under a public key. -/
  verifyDigestSecp256k1 : Bytes → H → Bytes → Bool

/-- Distinct inputs have distinct digests. -/
def IdealHash (H : Type) [Crypto H] : Prop :=
  Function.Injective (Crypto.keccak256 : List (Chunk H) → H)

/-- Distinct inputs have distinct SHA-256 digests. -/
def IdealSha256 (H : Type) [Crypto H] : Prop :=
  Function.Injective (Crypto.sha256 : List (Chunk H) → H)

end EZChain
