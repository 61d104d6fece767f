import EZChain.SparseMerkle
import Mathlib.Tactic.Ring

/-!
# Big-endian integers

Lengths, signatures and magnitudes are written with `int.to_bytes` and read with
`int.from_bytes`, most significant byte first.
-/

namespace EZChain

/-! ## Reading and writing -/

theorem keyInt_cons (byte : UInt8) (bytes : Bytes) :
    keyInt (byte :: bytes) = byte.toNat * 256 ^ bytes.length + keyInt bytes := by
  induction bytes using List.reverseRecOn with
  | nil => simp [keyInt]
  | append_singleton bytes last induction =>
      rw [← List.cons_append, keyInt_concat, induction, keyInt_concat, List.length_append,
        List.length_singleton, pow_succ]
      ring

theorem keyInt_lt_pow (bytes : Bytes) : keyInt bytes < 256 ^ bytes.length := by
  have bound := keyInt_lt bytes
  have power_eq : 2 ^ (bytes.length * 8) = 256 ^ bytes.length := by
    rw [Nat.mul_comm, Nat.pow_mul]
  rwa [power_eq] at bound

theorem keyInt_zero_cons (bytes : Bytes) : keyInt (0 :: bytes) = keyInt bytes := by
  simp [keyInt_cons]

/-- A number with a non-zero first byte has all its bytes. -/
theorem pow_le_keyInt_cons {byte : UInt8} (nonzero : byte ≠ 0) (bytes : Bytes) :
    256 ^ bytes.length ≤ keyInt (byte :: bytes) := by
  have positive : 1 ≤ byte.toNat := by
    rcases Nat.eq_zero_or_pos byte.toNat with zero | positive
    · exact absurd (UInt8.toNat_inj.mp zero) nonzero
    · exact positive
  rw [keyInt_cons]
  exact (Nat.le_mul_of_pos_left _ positive).trans (Nat.le_add_right _ _)

@[simp]
theorem length_intToBytes (width value : ℕ) : (intToBytes width value).length = width := by
  induction width generalizing value with
  | zero => rfl
  | succ width induction => simp [intToBytes, induction]

theorem keyInt_intToBytes {width value : ℕ} (bound : value < 256 ^ width) :
    keyInt (intToBytes width value) = value := by
  induction width generalizing value with
  | zero =>
      rw [pow_zero, Nat.lt_one_iff] at bound
      rw [bound]
      rfl
  | succ width induction =>
      have quotient_lt : value / 256 < 256 ^ width := by
        apply Nat.div_lt_of_lt_mul
        rwa [← pow_succ']
      rw [intToBytes, keyInt_concat, induction quotient_lt, UInt8.toNat_ofNat']
      exact Nat.div_add_mod value 256

/-- The bits of a number, counted from the most significant one, are those of its bytes. -/
theorem testBit_keyInt (key : Bytes) {index : ℕ} (index_lt : index < key.length * 8) :
    (keyInt key).testBit (key.length * 8 - 1 - index) =
      (key.getD (index / 8) 0).toNat.testBit (7 - index % 8) := by
  induction key using List.reverseRecOn with
  | nil => simp at index_lt
  | append_singleton key byte induction =>
      rw [List.length_append, List.length_singleton] at index_lt ⊢
      rw [keyInt_concat, show 256 = 2 ^ 8 from rfl,
        Nat.testBit_two_pow_mul_add _ byte.toNat_lt]
      split
      · next last =>
          have byte_index : index / 8 = key.length := by omega
          rw [byte_index, List.getD_append_right _ _ _ _ le_rfl, Nat.sub_self, List.getD_cons_zero]
          congr 1
          omega
      · next earlier =>
          rw [List.getD_append _ _ _ _ (by omega), ← induction (by omega)]
          congr 1
          omega

/-! ## Shortest widths -/

/-- `value.bit_length()`. -/
def bitLength (value : ℕ) : ℕ :=
  if value = 0 then 0 else Nat.log2 value + 1

/-- `(value.bit_length() + 7) // 8`. -/
def byteWidth (value : ℕ) : ℕ :=
  (bitLength value + 7) / 8

theorem bitLength_le_iff (value bits : ℕ) : bitLength value ≤ bits ↔ value < 2 ^ bits := by
  rw [bitLength]
  split
  · next zero => simp [zero]
  · next nonzero => rw [Nat.succ_le_iff, Nat.log2_lt nonzero]

theorem byteWidth_le_iff (value width : ℕ) : byteWidth value ≤ width ↔ value < 256 ^ width := by
  have power_eq : 256 ^ width = 2 ^ (8 * width) := (Nat.pow_mul 2 8 width).symm
  rw [power_eq, ← bitLength_le_iff, byteWidth]
  omega

theorem lt_pow_byteWidth (value : ℕ) : value < 256 ^ byteWidth value :=
  (byteWidth_le_iff value _).mp le_rfl

theorem byteWidth_eq {value width : ℕ} (lower : 256 ^ width ≤ value)
    (upper : value < 256 ^ (width + 1)) : byteWidth value = width + 1 := by
  apply Nat.le_antisymm ((byteWidth_le_iff value _).mpr upper)
  by_contra smaller
  have below := (byteWidth_le_iff value width).mp (by omega)
  omega

/-- The first of the fewest bytes that hold a number is not zero. -/
theorem head_ne_zero {first : UInt8} {rest : Bytes} {value : ℕ}
    (bytes_eq : intToBytes (byteWidth value) value = first :: rest) : first ≠ 0 := by
  rintro rfl
  have length_eq := congrArg List.length bytes_eq
  have value_eq := keyInt_intToBytes (lt_pow_byteWidth value)
  rw [length_intToBytes, List.length_cons] at length_eq
  rw [bytes_eq, keyInt_zero_cons] at value_eq
  have narrower := (byteWidth_le_iff value rest.length).mpr (value_eq ▸ keyInt_lt_pow rest)
  omega

theorem intToBytes_byteWidth_keyInt {first : UInt8} (nonzero : first ≠ 0) (rest : Bytes) :
    intToBytes (byteWidth (keyInt (first :: rest))) (keyInt (first :: rest)) = first :: rest := by
  have width_eq := byteWidth_eq (pow_le_keyInt_cons nonzero rest) (keyInt_lt_pow (first :: rest))
  rw [width_eq, ← List.length_cons, intToBytes_keyInt]

end EZChain
